import Systolic.Proofs.Transfer.Stores

/-!
# What is under way in the link

The host link takes a cycle for every row, and a row that is read lands a cycle later. `HostLink.finish` is what the two
memories come to once everything under way in the link, and the command that it sees next, has been finished. A cycle of
the link does not change it (`HostLink.finish_step`), and a command adds its instruction (`HostLink.Still.finish_command`).
-/

namespace Systolic

namespace HostLink

/-! ## What is left to do -/

/-- The read that runs or is about to, whether it has rows or not. -/
def readJob (link : HostLink) : Option Command → Option Job
  | some (.readHost t) => some (Job.ofTransfer t)
  | _ => link.reading

/-- The write that runs or is about to, whether it has rows or not. -/
def writeJob (link : HostLink) : Option Command → Option Job
  | some (.writeHost t) => some (Job.ofTransfer t)
  | _ => link.writing

/-- A jump row that is asked for. -/
def placed (chip : Chip) : Option Command → Option RowStore.Write
  | some (.placeJump target padAddr) => some ⟨padAddr, jumpRow chip target⟩
  | _ => none

/-- What the memories come to once everything under way in the link, and the command that it sees next, has been
finished. -/
def finish (chip : Chip) (link : HostLink) (issue : Option Command) (s : Stores) : Stores :=
  (((s.land link.response.get?).reads (link.readJob issue)).writes (link.writeJob issue)).land (placed chip issue)

/-- What a cycle of the link makes of the memories. -/
def moved (chip : Chip) (link : HostLink) (issue : Option Command) (s : Stores) : Stores :=
  ⟨s.pad.commit (link.step chip issue s.pad s.host).2.padWrite,
    s.host.commit (link.step chip issue s.pad s.host).2.hostWrite⟩

/-- Nothing is under way. -/
def Still (link : HostLink) : Prop := link.reading = none ∧ link.writing = none ∧ link.response.valid = false

/-- A write runs on its own, and a command finds nothing under way. -/
structure Single (link : HostLink) (issue : Option Command) : Prop where
  writing : link.writing.isSome = true → link.reading = none ∧ link.response.valid = false
  issue : ∀ c, issue = some c → takes c = true → link.Still

variable {chip : Chip} {link : HostLink} {issue : Option Command}

theorem reading?_eq : link.reading? issue = (link.readJob issue).filter (·.remaining != 0) := by
  cases issue with
  | none => rfl
  | some c => cases c <;> rfl

theorem writing?_eq : link.writing? issue = (link.writeJob issue).filter (·.remaining != 0) := by
  cases issue with
  | none => rfl
  | some c => cases c <;> rfl

theorem get?_of_invalid {w : Wire RowStore.Write} (h : w.valid = false) : w.get? = none := by
  rw [Wire.get?, h]
  rfl

/-- Without a read, it is a jump row that enters the response register. -/
theorem respond?_of_none (h : link.reading? issue = none) (host : RowStore) :
    link.respond? chip host issue = placed chip issue := by
  unfold respond? placed
  rw [h]
  cases issue with
  | none => rfl
  | some c => cases c <;> rfl

theorem respond?_of_some {j : Job} (h : link.reading? issue = some j) (host : RowStore) :
    link.respond? chip host issue = some ⟨j.padAddr, host.read j.hostAddr⟩ := by
  unfold respond?
  rw [h]

/-- While a write runs, nothing else does. -/
theorem Single.of_writing (h : link.Single issue) (chip : Chip) {j : Job} (hw : link.writing? issue = some j) :
    link.reading? issue = none ∧ link.response.get? = none ∧ placed chip issue = none := by
  have hquiet : (∀ c, issue = some c → takes c = false) → link.reading? issue = none ∧ link.response.get? = none ∧
      placed chip issue = none := by
    intro hq
    rw [writing?_of_quiet _ hq] at hw
    have hsome : link.writing.isSome = true := by
      rw [(Option.filter_eq_some_iff.1 hw).1]
      rfl
    obtain ⟨hreading, hresponse⟩ := h.writing hsome
    refine ⟨?_, get?_of_invalid hresponse, ?_⟩
    · rw [reading?_of_quiet _ hq, hreading]
      rfl
    · cases issue with
      | none => rfl
      | some c =>
        have hc := hq c rfl
        cases c <;> first | rfl | cases hc
  cases issue with
  | none => exact hquiet nofun
  | some c =>
    by_cases htakes : takes c = true
    · obtain ⟨hreading, hwriting, hresponse⟩ := h.issue c rfl htakes
      cases c with
      | writeHost t =>
        refine ⟨?_, get?_of_invalid hresponse, rfl⟩
        simp [reading?, hreading]
      | readHost t | placeJump target padAddr => simp [writing?, hwriting] at hw
      | readWeights a | multiply x | activate a => cases htakes
    · refine hquiet fun d hd => ?_
      cases hd
      exact Bool.eq_false_iff.2 htakes

/-- A jump row is placed when nothing is under way. -/
theorem Single.of_placed (h : link.Single issue) {w : RowStore.Write} (hp : placed chip issue = some w) :
    link.readJob issue = none ∧ link.writeJob issue = none ∧ link.response.get? = none := by
  cases issue with
  | none => cases hp
  | some c =>
    cases c with
    | placeJump target padAddr =>
      obtain ⟨hreading, hwriting, hresponse⟩ := h.issue _ rfl rfl
      exact ⟨hreading, hwriting, get?_of_invalid hresponse⟩
    | readHost t | writeHost t | readWeights a | multiply x | activate a => cases hp

/-- A write that goes on after a cycle still runs on its own. -/
theorem Single.writing_step (h : link.Single issue) (pad host : RowStore)
    (hw : (link.step chip issue pad host).1.writing.isSome = true) :
    (link.step chip issue pad host).1.reading = none ∧ (link.step chip issue pad host).1.response.valid = false := by
  obtain ⟨k, hk⟩ := Option.isSome_iff_exists.1 hw
  obtain ⟨j, hj, -⟩ := Option.bind_eq_some_iff.1 hk
  obtain ⟨hreading, -, hplaced⟩ := h.of_writing chip hj
  have hrespond : link.respond? chip host issue = placed chip issue := respond?_of_none hreading host
  rw [hplaced] at hrespond
  constructor
  · change (link.reading? issue).bind _ = none
    rw [hreading]
    rfl
  · rw [step, hrespond]
    rfl

/-! ## One cycle -/

/-- **Nothing is lost on the way.** A cycle of the link leaves what the memories come to as it is. -/
theorem finish_step (h : link.Single issue) (s : Stores) :
    finish chip (link.step chip issue s.pad s.host).1 none (link.moved chip issue s) = finish chip link issue s := by
  have hnext : finish chip (link.step chip issue s.pad s.host).1 none (link.moved chip issue s) =
      ((((link.moved chip issue s).land (link.respond? chip s.host issue)).reads
        ((link.reading? issue).bind (·.next?))).writes ((link.writing? issue).bind (·.next?))).land none := by
    rw [finish, response_step]
    rfl
  have hmoved : link.moved chip issue s = ⟨s.pad.commit link.response.get?,
      s.host.commit ((link.writing? issue).map fun j => ⟨j.hostAddr, s.pad.read j.padAddr⟩)⟩ := rfl
  rw [hnext, hmoved, finish]
  cases hw : link.writing? issue with
  | some j =>
    obtain ⟨hreading, hresponse, hplaced⟩ := h.of_writing chip hw
    rw [respond?_of_none hreading, hreading, hresponse, hplaced]
    rw [reading?_eq] at hreading
    rw [writing?_eq] at hw
    obtain ⟨hjob, hne⟩ := Option.filter_eq_some_iff.1 hw
    rw [Stores.reads_of_filter _ hreading, hjob]
    exact congrArg (Stores.land · none) (Stores.writes_next? s (by simpa using hne))
  | none =>
    rw [writing?_eq] at hw
    rw [Stores.writes_of_filter _ hw]
    cases hr : link.reading? issue with
    | some j =>
      have hplaced : placed chip issue = none := by
        by_contra hne
        obtain ⟨w, hp⟩ := Option.ne_none_iff_exists'.1 hne
        rw [reading?_eq, (h.of_placed hp).1] at hr
        cases hr
      rw [respond?_of_some hr, hplaced]
      rw [reading?_eq] at hr
      obtain ⟨hjob, hne⟩ := Option.filter_eq_some_iff.1 hr
      rw [hjob]
      exact congrArg (Stores.land · none) (Stores.reads_next? (s.land link.response.get?) (by simpa using hne))
    | none =>
      rw [respond?_of_none hr]
      rw [reading?_eq] at hr
      rw [Stores.reads_of_filter _ hr]
      rfl

/-! ## Commands -/

namespace Still

variable (h : link.Still)
include h

/-- With nothing under way and no command for the link, the memories stay as they are. -/
theorem finish_of_quiet (hi : ∀ c, issue = some c → takes c = false) (s : Stores) : finish chip link issue s = s := by
  obtain ⟨hreading, hwriting, hresponse⟩ := h
  have hread : link.readJob issue = none ∧ link.writeJob issue = none ∧ placed chip issue = none := by
    cases issue with
    | none => exact ⟨hreading, hwriting, rfl⟩
    | some c =>
      have hc := hi c rfl
      cases c <;> first | exact ⟨hreading, hwriting, rfl⟩ | cases hc
  rw [finish, get?_of_invalid hresponse, hread.1, hread.2.1, hread.2.2]
  rfl

/-- **A command adds its instruction.** Seen with nothing under way, it is finished when the instruction has been carried
out. -/
theorem finish_command {i : Instruction} (hi : i.opcode = .readHost ∨ i.opcode = .writeHost) (pc : UInt64)
    (s : Stores) : finish chip link (Sequencer.command? chip s.pad pc i) s = s.perform chip i := by
  obtain ⟨hreading, hwriting, hresponse⟩ := h
  have hread : ∀ t, finish chip link (some (.readHost t)) s =
      { s with pad := Sequential.copyRows s.host t.hostAddr t.padAddr s.pad t.length.toNat } := by
    intro t
    rw [finish, get?_of_invalid hresponse, show link.writeJob (some (.readHost t)) = none from hwriting]
    rfl
  have hwrite : ∀ t, finish chip link (some (.writeHost t)) s =
      { s with host := Sequential.copyRows s.pad t.padAddr t.hostAddr s.host t.length.toNat } := by
    intro t
    rw [finish, get?_of_invalid hresponse, show link.readJob (some (.writeHost t)) = none from hreading]
    rfl
  have hplace : ∀ target addr, finish chip link (some (.placeJump target addr)) s =
      { s with pad := s.pad.write addr (jumpRow chip target) } := by
    intro target addr
    rw [finish, get?_of_invalid hresponse, show link.readJob (some (.placeJump target addr)) = none from hreading,
      show link.writeJob (some (.placeJump target addr)) = none from hwriting]
    rfl
  rcases hi with hop | hop
  · simp only [Sequencer.command?, Stores.perform, hop]
    by_cases hconvert : i.has Instruction.convertBit = true
    · rw [if_pos hconvert, if_pos hconvert, hplace]
    · rw [if_neg hconvert, if_neg hconvert, hread, Sequencer.transfer]
      by_cases hswitch : i.has Instruction.switchBit = true
      · simp only [if_pos hswitch, Sequential.copyRows_one]
      · simp only [if_neg hswitch]
  · simp only [Sequencer.command?, Stores.perform, hop]
    rw [hwrite, Sequencer.transfer]
    by_cases hswitch : i.has Instruction.switchBit = true
    · simp only [if_pos hswitch, Sequential.copyRows_one]
    · simp only [if_neg hswitch]

end Still

end HostLink

end Systolic
