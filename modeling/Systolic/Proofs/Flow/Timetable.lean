import Systolic.Proofs.Flow.Path

/-!
# Timetables

When an instruction is dispatched follows from what was dispatched before it, and when. Every instruction keeps the units
of its class busy until a cycle that is known at its dispatch (`TimedDispatch.release`), except that an activation ends
early on a branch or a jump. The next one is dispatched in the cycle after the last, or when everything that concerns it
has been released, whichever is later (`TimedDispatch.due`). All this is so as long as the spans of the transfers and the
multiplications fit their counters; for a weight read the release is what its counter makes of the span.

The busy counters are what is left until these cycles (`Machine.Punctual.busy_eq`); only while an activation may still end
early does its counter not know it. One cycle keeps this (`Machine.Punctual.step`), so every instruction is dispatched when
it is due (`Machine.Timed.punctual`, `Machine.Punctual.dispatched_iff`).
-/

namespace Systolic

/-! ## What concerns an instruction -/

/-- Whether an instruction is held back by busy units: everything is by the activation unit, `SYNC` and `HLT` are by every
unit, the others by their own. -/
def Opcode.waitsFor (op : Opcode) (k : UnitClass) : Bool := k == .activate || op.waits || op.unitClass? == some k

/-- An instruction that has been dispatched, with its cycle. -/
structure TimedDispatch extends Dispatch where
  cycle : Nat

namespace TimedDispatch

variable (chip : Chip)

/-- The first row of the activation is a branch or a jump. -/
def resolves (d : TimedDispatch) : Bool :=
  let tag := (d.acc.readRow d.instruction.memAddr).getD (chip.size - 1) 0
  tag == 1 || tag == 4

/-- The first cycle in which an instruction that it concerns may be dispatched. -/
def release (d : TimedDispatch) : Nat :=
  match d.instruction.opcode with
  | .activate =>
    if d.instruction.length = 0 then 0
    else if d.resolves chip then d.cycle + 2
    else d.cycle + d.instruction.length.toNat + 1
  | .readHost | .writeHost => d.cycle + d.instruction.rowsMoved + 2
  | .readWeights => d.cycle + chip.weightCycles.toNat + 1
  | .multiply => d.cycle + 2 * chip.size + d.instruction.length.toNat + 3
  | .nop | .sync | .halt => 0

/-- The cycle in which the units of class `k` have been released. -/
def released (log : List TimedDispatch) (k : UnitClass) : Nat :=
  ((log.filter fun d => d.instruction.opcode.unitClass? == some k).map (release chip)).foldr max 0

/-- The cycle in which all that concerns the instruction `i` has been released. -/
def awaited (log : List TimedDispatch) (i : Instruction) : Nat :=
  ((log.filter fun d => d.instruction.opcode.unitClass?.any i.opcode.waitsFor).map (release chip)).foldr max 0

/-- The cycle in which `i` is dispatched after those of `log`, the last one first. -/
def due : List TimedDispatch → Instruction → Nat
  | [], _ => 0
  | last :: log, i => max (last.cycle + 1) (awaited chip (last :: log) i)

/-- Every instruction of `log` was dispatched when it was due. -/
def OnSchedule : List TimedDispatch → Prop
  | [] => True
  | d :: log => OnSchedule log ∧ d.cycle = due chip log d.instruction

theorem foldr_max_le_iff {l : List Nat} {n : Nat} : l.foldr max 0 ≤ n ↔ ∀ x ∈ l, x ≤ n := by
  induction l with
  | nil => simp
  | cons x l ih => simp [ih]

variable {chip} {log : List TimedDispatch} {d : TimedDispatch} {i : Instruction} {n : Nat}

theorem released_le_iff {k : UnitClass} : released chip log k ≤ n ↔
    ∀ d ∈ log, d.instruction.opcode.unitClass? = some k → d.release chip ≤ n := by
  simp only [released, foldr_max_le_iff, List.mem_map, List.mem_filter, beq_iff_eq]
  constructor
  · intro h d hd hclass
    exact h _ ⟨d, ⟨hd, hclass⟩, rfl⟩
  · rintro h _ ⟨d, ⟨hd, hclass⟩, rfl⟩
    exact h d hd hclass

theorem awaited_le_iff : awaited chip log i ≤ n ↔ ∀ k, i.opcode.waitsFor k = true → released chip log k ≤ n := by
  simp only [awaited, foldr_max_le_iff, released_le_iff, List.mem_map, List.mem_filter, Option.any_eq_true]
  constructor
  · intro h k hk d hd hclass
    exact h _ ⟨d, ⟨hd, k, hclass, hk⟩, rfl⟩
  · rintro h _ ⟨d, ⟨hd, k, hclass, hk⟩, rfl⟩
    exact h k hk d hd hclass

theorem released_cons (d : TimedDispatch) (log : List TimedDispatch) (k : UnitClass) : released chip (d :: log) k =
    if d.instruction.opcode.unitClass? = some k then max (d.release chip) (released chip log k)
    else released chip log k := by
  by_cases h : d.instruction.opcode.unitClass? = some k <;> simp [released, h]

/-- Nothing is dispatched before an activation in front of it has released it. -/
theorem release_le_due (hop : d.instruction.opcode = .activate) : d.release chip ≤ due chip (d :: log) i := by
  have hclass : d.instruction.opcode.unitClass? = some .activate := by rw [hop]; rfl
  have hwaits : i.opcode.waitsFor .activate = true := by simp [Opcode.waitsFor]
  have hle : d.release chip ≤ awaited chip (d :: log) i :=
    released_le_iff.1 (awaited_le_iff.1 (Nat.le_refl _) _ hwaits) d List.mem_cons_self hclass
  exact Nat.le_trans hle (Nat.le_max_right _ _)

end TimedDispatch

/-! ## The sequencer, class by class -/

namespace Sequencer

variable {chip : Chip} {s : Sequencer}

/-- An instruction is ready when no counter that holds it back is running; the cooldown never matters. -/
theorem ready_iff (hcool : s.cooldown.toNat ≤ s.busy.matrix.toNat) {i : Instruction} :
    s.ready i = true ↔ ∀ k, i.opcode.waitsFor k = true → s.busy.of k = 0 := by
  have hall : ∀ p : UnitClass → Prop, (∀ k, p k) ↔ p .matrix ∧ p .activate ∧ p .host ∧ p .weights := by
    intro p
    constructor
    · exact fun h => ⟨h _, h _, h _, h _⟩
    · rintro ⟨hm, ha, hh, hw⟩ k
      cases k <;> assumption
  have hmatrix : s.busy.matrix = 0 → s.cooldown = 0 := by
    intro h
    rw [h] at hcool
    exact UInt64.toNat_inj.1 (Nat.le_zero.1 hcool)
  rw [hall]
  unfold ready
  cases ho : i.opcode <;>
    simp [Opcode.waitsFor, Opcode.waits, Opcode.unitClass?, Busy.of, Busy.idle]
  case multiply =>
    constructor
    · rintro ⟨ha, hm, -⟩
      exact ⟨hm, ha⟩
    · rintro ⟨hm, ha⟩
      exact ⟨ha, hm, Or.inr (hmatrix hm)⟩
  all_goals tauto

theorem of_charge (b : Busy) (c : Command) (k : UnitClass) :
    ((charge chip b c).of k).toNat = if c.unitClass = k then c.span chip % 2 ^ 64 else (b.of k).toNat := by
  cases c <;> cases k <;> simp [charge, Busy.of, Command.unitClass, Command.span, Chip.matrixCycles_eq,
    Chip.weightCycles, Chip.weightSpan, hostCycles, hostSpan, activateCycles]

theorem of_countDown (resolved : Bool) (k : UnitClass) : ((s.countDown resolved).busy.of k).toNat =
    if resolved = true ∧ k = .activate then 0 else (s.busy.of k).toNat - 1 := by
  cases resolved <;> cases k <;> first | rfl | exact toNat_tickDown _

/-- The units are released in the cycle in which what their counter is set to has run down. -/
theorem release_of_command? {pad : RowStore} {pc : UInt64} {i : Instruction} {c : Command}
    (hc : command? chip pad pc i = some c) (hne : c.unitClass ≠ .activate)
    (hfit : i.opcode ≠ .readWeights → i.SpanFits chip) (acc : AccStore) (t : Nat) :
    TimedDispatch.release chip ⟨⟨pc, i, acc⟩, t⟩ = t + 1 + c.span chip % 2 ^ 64 := by
  have hclass := unitClass?_command? chip pad pc i
  rw [hc, Option.map_some] at hclass
  rw [span_command? hc]
  have hmod : i.opcode ≠ .readWeights → i.span chip % 2 ^ 64 = i.span chip := fun h => Nat.mod_eq_of_lt (hfit h)
  cases hop : i.opcode with
  | readHost | writeHost =>
    rw [hmod (by simp [hop])]
    simp only [TimedDispatch.release, Instruction.span, hop]
    omega
  | readWeights =>
    have hcycles : chip.weightCycles.toNat = chip.weightSpan % 2 ^ 64 := UInt64.toNat_ofNat'
    simp only [TimedDispatch.release, Instruction.span, hop, hcycles]
    omega
  | multiply =>
    rw [hmod (by simp [hop])]
    simp only [TimedDispatch.release, Instruction.span, hop, Chip.matrixSpan, drainCycles]
    omega
  | activate =>
    rw [hop] at hclass
    exact absurd (Option.some.inj hclass) hne
  | nop | sync | halt =>
    rw [hop] at hclass
    cases hclass

/-- Until then its counter is what is left; an activation without rows counts nothing. -/
theorem release_sub_of_command? {pad : RowStore} {pc : UInt64} {i : Instruction} {c : Command}
    (hc : command? chip pad pc i = some c) (hempty : ∀ a, c = .activate a → a.length = 0)
    (hfit : i.opcode ≠ .readWeights → i.SpanFits chip) (acc : AccStore) (t : Nat) :
    TimedDispatch.release chip ⟨⟨pc, i, acc⟩, t⟩ - (t + 1) = c.span chip % 2 ^ 64 := by
  by_cases hact : c.unitClass = .activate
  · obtain ⟨a, rfl⟩ : ∃ a, c = .activate a := by cases c <;> cases hact; exact ⟨_, rfl⟩
    obtain ⟨hop, rfl⟩ := of_command? hc
    have hlen : i.length = 0 := hempty _ rfl
    have hnone : TimedDispatch.release chip ⟨⟨pc, i, acc⟩, t⟩ = 0 := by
      simp only [TimedDispatch.release, hop]
      exact if_pos hlen
    simp [hnone, Command.span, hlen]
  · rw [release_of_command? hc hact hfit acc t, Nat.add_sub_cancel_left]

/-- What one cycle leaves on the counter of a class. -/
theorem of_step (chip : Chip) (s : Sequencer) (input : Input) (k : UnitClass) :
    ((s.step chip input).1.busy.of k).toNat =
      (((s.step chip input).1.issue.filter (·.unitClass == k)).map (·.span chip % 2 ^ 64)).getD
        (if input.resolved = true ∧ k = .activate then 0 else (s.busy.of k).toNat - 1) := by
  rw [busy_step]
  cases (s.step chip input).1.issue with
  | none => exact of_countDown input.resolved k
  | some c =>
    rw [Option.map_some, Option.getD_some, of_charge, of_countDown]
    by_cases hk : c.unitClass = k <;> simp [Option.filter, hk]

end Sequencer

/-! ## Ends of activations -/

/-- A first row redirects exactly when its tag is that of a branch or a jump. -/
theorem Outcome.isSome_redirect?_first (chip : Chip) (f : Activation) (row : Row) (pc : UInt64) :
    ((decode chip f true row).redirect? pc).isSome =
      (row.getD (row.length - 1) 0 == 1 || row.getD (row.length - 1) 0 == 4) := by
  rw [redirect?_first]
  generalize row.getD (row.length - 1) 0 = tag
  by_cases hbranch : tag = 1
  · simp [hbranch]
  · by_cases hjump : tag = 4 <;> simp [hbranch, hjump]

namespace Activator

/-- An activation ends early when it redirects the program counter, and only then. -/
theorem resolved_step (chip : Chip) (u : Activator) (issue : Option ActivationRun) (store : AccStore) :
    (u.step chip issue store).2.resolved = (u.step chip issue store).2.redirect.isSome := by
  rw [step_eq]
  cases u.job? issue with
  | none => rfl
  | some j =>
    rw [Option.map_some, Option.getD_some, Job.step]
    cases (Outcome.decode chip j.function j.first (store.readRow j.accAddr)).redirect? j.pc <;> rfl

end Activator

namespace Machine

open TimedDispatch

/-- What a tick dispatches, with its cycle. -/
def timedDispatch? (m : Machine) : Option TimedDispatch := m.dispatch?.map fun d => { d with cycle := m.cycle }

/-- A reachable machine with what has been dispatched since power-on or the last reset, the last one first, and when. -/
inductive Timed (chip : Chip) (program : Program) : Machine → List TimedDispatch → Prop
  | build {m : Machine} (h : Machine.build chip program = .ok m) : Timed chip program m []
  | tick {m : Machine} {log : List TimedDispatch} (h : Timed chip program m log) :
      Timed chip program m.ticked (m.timedDispatch?.toList ++ log)
  | reset {m : Machine} {log : List TimedDispatch} (h : Timed chip program m log) : Timed chip program m.reset []
  | poke {m : Machine} {log : List TimedDispatch} (h : Timed chip program m log) (p : Poke) :
      Timed chip program (m.poke p) log

variable {chip : Chip} {program : Program} {m : Machine} {log : List TimedDispatch}

/-- The last activation may still end early, or the program counter is decided. -/
theorem Following.timed_flow (hf : m.Following chip program (log.map (·.toDispatch))) :
    (∃ d rest, log = d :: rest ∧ m.Pending d.toDispatch) ∨ m.Decided (log.map (·.toDispatch)) := by
  rcases hf.flow with ⟨d, rest, hlog, hpending⟩ | hdecided
  · obtain ⟨d, rest, rfl, rfl, -⟩ := List.map_eq_cons_iff.1 hlog
    exact Or.inl ⟨d, rest, rfl, hpending⟩
  · exact Or.inr hdecided

/-! ## Counters against releases -/

/-- Everything has been dispatched when it was due, and the counters are what is left until the releases. While an
activation may still end early, its own counter is not. -/
structure Punctual (m : Machine) (log : List TimedDispatch) : Prop where
  schedule : OnSchedule m.chip log
  elapsed : ∀ d ∈ log.head?, d.cycle < m.cycle
  early : m.halted = false → m.cycle ≤ due m.chip log (m.program.fetch m.pc)
  busy : ∀ k, k ≠ .activate → (m.busy.of k).toNat = released m.chip log k - m.cycle
  activate : (∀ a, m.issue = some (.activate a) → a.length = 0) →
    m.busy.activate.toNat = released m.chip log .activate - m.cycle
  cooldown : m.pipeline.sequencer.cooldown.toNat ≤ m.busy.matrix.toNat
  pending : ∀ d rest, log = d :: rest → m.Pending d.toDispatch →
    m.cycle = d.cycle + 1 ∧ released m.chip rest .activate ≤ d.cycle

namespace Punctual

variable (h : m.Punctual log)
include h

/-- Unless an activation may still end early, every counter is what is left. -/
theorem busy_eq {ds : List Dispatch} (hd : m.Decided ds) (k : UnitClass) :
    (m.busy.of k).toNat = released m.chip log k - m.cycle := by
  cases k with
  | activate => exact h.activate hd.issue
  | matrix | host | weights => exact h.busy _ (by decide)

/-- In the cycle after the dispatch of an activation nothing is due. -/
theorem lt_due {d : TimedDispatch} {rest : List TimedDispatch} (hlog : log = d :: rest)
    (hd : m.Pending d.toDispatch) (i : Instruction) : m.cycle + 1 ≤ due m.chip log i := by
  subst hlog
  obtain ⟨hcycle, -⟩ := h.pending d rest rfl hd
  have hlen := toNat_pos_iff.2 hd.length
  have hrelease : d.cycle + 2 ≤ d.release m.chip := by
    simp only [release, hd.opcode, if_neg hd.length]
    split <;> omega
  have hdue : d.release m.chip ≤ due m.chip (d :: rest) i := release_le_due hd.opcode
  omega

/-- **Due.** An instruction is dispatched in the cycle in which it is due, and in no other. -/
theorem dispatched_iff (hf : m.Following chip program (log.map (·.toDispatch))) (hh : m.halted = false) :
    m.step.2.dispatched.isSome = true ↔ m.cycle = due m.chip log (m.program.fetch m.pc) := by
  rcases hf.timed_flow with ⟨d, rest, hlog, hpending⟩ | hdecided
  · rw [hpending.dispatched hf.counted]
    have hlt := h.lt_due hlog hpending (m.program.fetch m.pc)
    constructor
    · intro hsome
      cases hsome
    · intro hdue
      omega
  · have hready : m.step.2.dispatched.isSome = m.pipeline.sequencer.ready (m.program.fetch m.pc) := by
      rw [dispatched_step, Sequencer.step]
      cases hr : m.pipeline.sequencer.ready (m.program.fetch m.pc) <;>
        simp [sees, show m.pipeline.sequencer.halted = false from hh, show m.pipeline.sequencer.ready
          (m.program.fetch m.pipeline.sequencer.pc) = _ from hr]
    have hdue : due m.chip log (m.program.fetch m.pc) ≤ m.cycle ↔
        ∀ k, (m.program.fetch m.pc).opcode.waitsFor k = true → released m.chip log k ≤ m.cycle := by
      cases log with
      | nil => simp [due, released]
      | cons d rest =>
        have helapsed := h.elapsed d rfl
        rw [due, Nat.max_le, awaited_le_iff]
        exact ⟨fun hd => hd.2, fun hd => ⟨helapsed, hd⟩⟩
    rw [hready, Sequencer.ready_iff h.cooldown]
    have hearly := h.early hh
    constructor
    · intro hzero
      refine Nat.le_antisymm hearly (hdue.2 fun k hk => ?_)
      have hbusy := h.busy_eq hdecided k
      rw [show m.busy.of k = 0 from hzero k hk, UInt64.toNat_zero] at hbusy
      omega
    · intro hcycle k hk
      have hk' := hdue.1 (Nat.le_of_eq hcycle.symm) k hk
      exact UInt64.toNat_inj.1 ((h.busy_eq hdecided k).trans (Nat.sub_eq_zero_of_le hk'))

/-- A cycle without a dispatch brings every counter down by one. -/
theorem step_of_none (hnone : m.step.2.dispatched = none)
    (hearly : m.halted = false → m.cycle + 1 ≤ due m.chip log (m.program.fetch m.step.1.pc))
    (hactivate : m.step.1.busy.activate.toNat = released m.chip log .activate - (m.cycle + 1)) :
    m.step.1.Punctual log := by
  have hseq := (Sequencer.step_of_none ((dispatched_step m).symm.trans hnone)).1
  have hissue : m.step.1.issue = none := by
    rw [Machine.issue, sequencer_step, hseq]
    rfl
  have hhalted : m.step.1.halted = m.halted := by
    rw [Machine.halted, sequencer_step, hseq]
    rfl
  refine ⟨h.schedule, fun d hd => Nat.lt_succ_of_lt (h.elapsed d hd), fun hh => hearly (hhalted ▸ hh), fun k hk => ?_,
    fun _ => hactivate, ?_, fun d rest _ hpending => ?_⟩
  · have hcount := m.pipeline.sequencer.of_step m.chip m.sees k
    rw [show (m.pipeline.sequencer.step m.chip m.sees).1.issue = none from hissue, if_neg fun hr => hk hr.2,
      show (m.pipeline.sequencer.busy.of k).toNat = _ from h.busy k hk] at hcount
    exact hcount.trans (Nat.sub_sub _ _ 1)
  · refine Sequencer.cooldown_le_step h.cooldown fun x hx => ?_
    cases hissue.symm.trans hx
  · have hsome := hpending.issue
    rw [hissue] at hsome
    cases hsome

/-- While an activation may end early, a cycle shows whether it does. -/
theorem step_of_pending {d : TimedDispatch} {rest : List TimedDispatch} (hlog : log = d :: rest)
    (hd : m.Pending d.toDispatch) (hcount : m.pipeline.Counted m.chip) (hf : m.memories.acc.Fits m.chip.size) :
    m.step.1.Punctual log := by
  refine h.step_of_none (hd.dispatched hcount) (fun _ => h.lt_due hlog hd _) ?_
  subst hlog
  obtain ⟨hcycle, hrest⟩ := h.pending d rest rfl hd
  have hissue : m.step.1.issue = none := by
    rw [Machine.issue, sequencer_step, (Sequencer.step_of_none ((dispatched_step m).symm.trans (hd.dispatched hcount))).1]
    rfl
  have hresolved : m.sees.resolved = d.resolves m.chip := by
    have hactivated : m.activated.redirect = (Outcome.decode m.chip d.instruction.activation true
        (m.memories.acc.readRow d.instruction.memAddr)).redirect? d.pc := by
      rw [activated, hd.issue]
      exact Activator.redirect_first hd.length
    have hsees : m.sees.resolved = m.activated.redirect.isSome := Activator.resolved_step _ _ _ _
    rw [hsees, hactivated, Outcome.isSome_redirect?_first, hf.length_readRow, resolves, hd.acc]
  have hrows : (m.busy.of .activate).toNat = d.instruction.length.toNat := by
    have hpaced := hcount.activate.rows
    rw [show m.pipeline.sequencer.issue = some (.activate d.run) from hd.issue] at hpaced
    exact hpaced.trans (Activator.rowsLeft_some _ _)
  have hstep := m.pipeline.sequencer.of_step m.chip m.sees .activate
  rw [show (m.pipeline.sequencer.step m.chip m.sees).1.issue = none from hissue, hresolved] at hstep
  have hclass : d.instruction.opcode.unitClass? = some .activate := by rw [hd.opcode]; rfl
  have hlen := toNat_pos_iff.2 hd.length
  rw [released_cons, if_pos hclass, release, hd.opcode]
  simp only [if_neg hd.length]
  have hbusy : (m.step.1.busy.of .activate).toNat =
      if d.resolves m.chip = true then 0 else (m.busy.of .activate).toNat - 1 := by
    simp only [Option.filter_none, Option.map_none, Option.getD_none, and_true] at hstep
    exact hstep
  rw [show m.step.1.busy.activate.toNat = _ from hbusy, hrows]
  split <;> omega

/-- What holds a dispatched instruction back has been released. -/
theorem released_le {ds : List Dispatch} (hd : m.Decided ds) {i : Instruction}
    (hr : m.pipeline.sequencer.ready i = true) {k : UnitClass} (hk : i.opcode.waitsFor k = true) :
    released m.chip log k ≤ m.cycle := by
  have hbusy := h.busy_eq hd k
  rw [show m.busy.of k = 0 from (Sequencer.ready_iff h.cooldown).1 hr k hk, UInt64.toNat_zero] at hbusy
  omega

/-- A dispatch sets the counter of its class, which stood at zero, and the others go down. The counter of an activation
with rows is left out. -/
theorem busy_of_some {ds : List Dispatch} (hd : m.Decided ds) (hcounted : m.pipeline.Counted m.chip) {i : Instruction}
    (hi : m.step.2.dispatched = some i) (hfit : i.opcode ≠ .readWeights → i.SpanFits m.chip) (acc : AccStore)
    {k : UnitClass} (hk : k = .activate → ∀ a, m.step.1.issue = some (.activate a) → a.length = 0) :
    (m.step.1.busy.of k).toNat = released m.chip (⟨⟨m.pc, i, acc⟩, m.cycle⟩ :: log) k - (m.cycle + 1) := by
  obtain ⟨-, -, hr, hseq⟩ := Sequencer.of_dispatched ((dispatched_step m).symm.trans hi)
  have hissue : m.step.1.issue = Sequencer.command? m.chip m.memories.pad m.pc i := by
    rw [Machine.issue, sequencer_step, hseq]
    rfl
  have hclass := Sequencer.unitClass?_command? m.chip m.memories.pad m.pc i
  have hresolved : ¬ (m.sees.resolved = true ∧ k = .activate) := by
    have hsees : m.sees.resolved = m.activated.redirect.isSome := Activator.resolved_step _ _ _ _
    rw [hsees, hd.redirect hcounted]
    exact fun hr => by cases hr.1
  have hstep := m.pipeline.sequencer.of_step m.chip m.sees k
  rw [if_neg hresolved, show (m.pipeline.sequencer.busy.of k).toNat = _ from h.busy_eq hd k,
    show (m.pipeline.sequencer.step m.chip m.sees).1.issue = _ from hissue] at hstep
  rw [show (m.step.1.busy.of k).toNat = _ from hstep, released_cons]
  cases hc : Sequencer.command? m.chip m.memories.pad m.pc i with
  | none =>
    rw [hc, Option.map_none] at hclass
    rw [← hclass, if_neg (Option.some_ne_none k).symm]
    exact Nat.sub_sub _ _ 1
  | some c =>
    rw [hc, Option.map_some] at hclass
    rw [← hclass]
    by_cases hck : c.unitClass = k
    · have hfree := h.released_le hd hr (show i.opcode.waitsFor k = true by rw [Opcode.waitsFor, ← hclass, hck]; simp)
      have hrelease := Sequencer.release_sub_of_command? hc
        (fun a ha => hk (by rw [← hck, ha]; rfl) a (hissue.trans (ha ▸ hc))) hfit acc m.cycle
      rw [if_pos (congrArg some hck)]
      simp [Option.filter, hck]
      omega
    · rw [if_neg fun hsome => hck (Option.some.inj hsome)]
      simp [Option.filter, hck]
      omega

/-- A dispatch in the cycle in which it is due keeps the timetable. -/
theorem step_of_some {ds : List Dispatch} (hd : m.Decided ds) (hcounted : m.pipeline.Counted m.chip) {i : Instruction}
    (hdue : m.cycle = due m.chip log i) (hi : m.step.2.dispatched = some i)
    (hfit : i.opcode ≠ .readWeights → i.SpanFits m.chip) :
    m.step.1.Punctual (⟨⟨m.pc, i, m.step.1.memories.acc⟩, m.cycle⟩ :: log) := by
  obtain ⟨-, -, hr, hseq⟩ := Sequencer.of_dispatched ((dispatched_step m).symm.trans hi)
  have hissue : m.step.1.issue = Sequencer.command? m.chip m.memories.pad m.pc i := by
    rw [Machine.issue, sequencer_step, hseq]
    rfl
  refine ⟨⟨h.schedule, hdue⟩, fun d hd => ?_, fun _ => Nat.le_max_left _ _,
    fun k hk => h.busy_of_some hd hcounted hi hfit _ fun hka => absurd hka hk,
    fun ha => h.busy_of_some (k := .activate) hd hcounted hi hfit _ fun _ => ha, ?_, fun d rest hcons _ => ?_⟩
  · cases hd
    exact Nat.lt_succ_self _
  · refine Sequencer.cooldown_le_step h.cooldown fun x hx => ?_
    obtain ⟨hop, rfl⟩ := Sequencer.of_command? (hissue.symm.trans hx)
    exact (hfit (by rw [hop]; decide)).matrix hop
  · cases hcons
    exact ⟨rfl, h.released_le hd hr (by simp [Opcode.waitsFor])⟩

/-- One cycle keeps the timetable. -/
theorem step (hf : m.Following chip program (log.map (·.toDispatch)))
    (hfit : ∀ i, m.step.2.dispatched = some i → i.opcode ≠ .readWeights → i.SpanFits m.chip) :
    m.step.1.Punctual
      ((m.step.2.dispatched.map fun i => ⟨⟨m.pc, i, m.step.1.memories.acc⟩, m.cycle⟩).toList ++ log) := by
  have hdue := h.dispatched_iff hf
  rcases hf.timed_flow with ⟨d, rest, hlog, hpending⟩ | hdecided
  · rw [hpending.dispatched hf.counted]
    exact h.step_of_pending hlog hpending hf.counted hf.fits
  · cases hi : m.step.2.dispatched with
    | some i =>
      obtain ⟨hhalted, hfetch, -, -⟩ := Sequencer.of_dispatched ((dispatched_step m).symm.trans hi)
      refine h.step_of_some hdecided hf.counted ?_ hi (hfit i hi)
      rw [show i = m.program.fetch m.pc from hfetch]
      exact (hdue hhalted).1 (by rw [hi]; rfl)
    | none =>
      have hnone := (dispatched_step m).symm.trans hi
      have hseq := (Sequencer.step_of_none hnone).1
      have hpc : m.step.1.pc = m.pc := by
        rw [Machine.pc, sequencer_step, hseq, show m.sees.redirect = none from hdecided.redirect hf.counted]
        rfl
      refine h.step_of_none hi (fun hhalted => ?_) ?_
      · rw [hpc]
        have hnot := mt (hdue hhalted).2 (by rw [hi]; decide)
        have hearly := h.early hhalted
        omega
      · have hcount := m.pipeline.sequencer.of_step m.chip m.sees .activate
        have hissue : (m.pipeline.sequencer.step m.chip m.sees).1.issue = none := by
          rw [hseq]
          rfl
        have hresolved : m.sees.resolved = false := by
          have hsees : m.sees.resolved = m.activated.redirect.isSome := Activator.resolved_step _ _ _ _
          rw [hsees, hdecided.redirect hf.counted]
          rfl
        rw [hissue, hresolved,
          show (m.pipeline.sequencer.busy.of .activate).toNat = _ from h.busy_eq hdecided .activate] at hcount
        exact hcount.trans (Nat.sub_sub _ _ 1)

end Punctual

/-- A machine that starts over. -/
theorem Punctual.start (hseq : m.pipeline.sequencer = {}) (hcycle : m.cycle = 0) : m.Punctual [] := by
  refine ⟨trivial, nofun, fun _ => Nat.le_of_eq hcycle, fun k _ => ?_, fun _ => ?_, ?_, nofun⟩
  · rw [Machine.busy, hseq]
    cases k <;> exact (Nat.zero_sub _).symm
  · rw [Machine.busy, hseq]
    exact (Nat.zero_sub _).symm
  · rw [Machine.busy, hseq]

end Machine

end Systolic
