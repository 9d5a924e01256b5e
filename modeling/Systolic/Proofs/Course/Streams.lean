import Systolic.Proofs.Occupancy.Reachable
import Systolic.Proofs.Transfer.Link

/-!
# Rows on their way through the units

Row `k` of an activation is turned in the `k`-th cycle after its command has arrived, and row `k` of a transfer is moved
in it, whatever else is under way, as long as the spans of the host commands fit their counter (`actJob?_of_issue`,
`running_of_issue`). Conversely everything that these units have in hand belongs to such a command
(`exists_issue_of_actJob?`, `exists_issue_of_running`). So the writes of a cycle are known from the commands that were
issued before (`act_write_iff`, `padWrite_iff`, `hostWrite_iff`).
-/

namespace Systolic

namespace Outcome

/-- A branch or a jump. -/
def redirects : Outcome → Bool
  | branch _ _ | jump _ => true
  | activated _ | equality _ | lessThan _ => false

theorem redirect?_eq_none_iff {o : Outcome} {pc : UInt64} : o.redirect? pc = none ↔ o.redirects = false := by
  cases o <;> simp [redirect?, redirects]

/-- What is neither a branch nor a jump is written back. -/
theorem exists_writeback? {o : Outcome} (h : o.redirects = false) : ∃ row, o.writeback? = some row := by
  cases o <;> first | exact ⟨_, rfl⟩ | cases h

end Outcome

/-- The transfer that a command asks the host link to read. -/
def Command.reads? : Command → Option Transfer
  | readHost T => some T
  | _ => none

/-- The transfer that a command asks the host link to write. -/
def Command.writes? : Command → Option Transfer
  | writeHost T => some T
  | _ => none

theorem Sequencer.unitClass_of_hostSet {c : Command} {n : Nat} (h : hostSet c = some n) : c.unitClass = .host := by
  cases c <;> first | rfl | cases h

namespace HostLink

/-- A direction of the link: the commands that ask for it, the job that it keeps, and the one that runs in a cycle. -/
structure Direction (asks : Command → Option Transfer) (job : HostLink → Option Job)
    (running : HostLink → Option Command → Option Job) : Prop where
  idle : job {} = none
  step : ∀ link chip issue pad host, job (link.step chip issue pad host).1 = (running link issue).bind (·.next?)
  running_eq : ∀ link issue, running link issue =
    (((issue.bind asks).map Job.ofTransfer).or (job link)).filter (·.remaining != 0)
  charged : ∀ c T, asks c = some T → Sequencer.hostSet c = some (hostSpan T.length)

theorem direction_reading : Direction Command.reads? (·.reading) reading? := by
  refine ⟨rfl, fun _ _ _ _ _ => rfl, fun link issue => ?_, fun c T hc => ?_⟩
  · cases issue with
    | none => rfl
    | some c => cases c <;> rfl
  · cases c <;> cases hc
    rfl

theorem direction_writing : Direction Command.writes? (·.writing) writing? := by
  refine ⟨rfl, fun _ _ _ _ _ => rfl, fun link issue => ?_, fun c T hc => ?_⟩
  · cases issue with
    | none => rfl
    | some c => cases c <;> rfl
  · cases c <;> cases hc
    rfl

theorem of_jobAt {T : Transfer} {k : Nat} {j : Job} (h : jobAt T k = some j) :
    k < T.length.toNat ∧ j = (Job.ofTransfer T).after k := by
  obtain ⟨hk, hj⟩ := Option.ite_none_right_eq_some.1 h
  exact ⟨hk, (Option.some.inj hj).symm⟩

/-- What enters the response register: the row that is read, or a jump row. -/
theorem respond?_eq_some_iff {link : HostLink} {chip : Chip} {host : RowStore} {issue : Option Command}
    {w : RowStore.Write} : link.respond? chip host issue = some w ↔
      (∃ j, link.reading? issue = some j ∧ w = ⟨j.padAddr, host.read j.hostAddr⟩) ∨
      (link.reading? issue = none ∧ ∃ target addr, issue = some (.placeJump target addr) ∧
        w = ⟨addr, jumpRow chip target⟩) := by
  unfold respond?
  cases hj : link.reading? issue with
  | some j => simp [eq_comm]
  | none =>
    cases issue with
    | none => simp
    | some c => cases c <;> simp [eq_comm]

end HostLink

namespace Course

open Sequencer

variable (C : Course)

/-- The span of every host command issued up to cycle `t` fits its counter. -/
def HostFit (t : Nat) : Prop := ∀ u ≤ t, ∀ c, C.issue u = some c → c.unitClass = .host → c.SpanFits C.chip

/-- What activation `a`, issued in cycle `d`, has come to after `k` rows: nothing if its first row redirects. -/
def turning (d : Nat) (a : ActivationRun) (k : Nat) : Option Activator.Job :=
  if 0 < k ∧ (Sequential.outcome C.chip (C.memories d).acc a 0).redirects = true then none else Activator.jobAt a k

variable {C}

theorem HostFit.mono {s t : Nat} (h : C.HostFit t) (hst : s ≤ t) : C.HostFit s :=
  fun u hu => h u (Nat.le_trans hu hst)

theorem counted_free (t : Nat) : (C.free t).pipeline.Counted C.chip := by
  induction t with
  | zero =>
    rw [pipeline_free_zero]
    exact (Pipeline.covered_idle C.chip).toCounted
  | succ t ih =>
    rw [← chip_free t] at ih ⊢
    rw [pipeline_free_succ]
    exact Machine.counted_step ih

/-! ## Activations -/

/-- What a row of an activation leaves of it. -/
theorem actJob_of_row {t k : Nat} {a : ActivationRun} (h : C.actJob? t = some (.ofRow a k)) (hk : k < a.length.toNat) :
    C.actJob (t + 1) = if (Sequential.outcome C.chip (C.memories t).acc a k).redirects = true then none
      else Activator.jobAt a (k + 1) := by
  rw [actJob_succ, h, Option.bind_some, Activator.Job.step_ofRow]
  cases hr : (Sequential.outcome C.chip (C.memories t).acc a k).redirect? a.pc with
  | none =>
    rw [Outcome.redirect?_eq_none_iff.1 hr, ← Activator.Job.next?_ofRow (Nat.le_of_lt hk)]
    rfl
  | some target =>
    have hred : (Sequential.outcome C.chip (C.memories t).acc a k).redirects = true := by
      by_contra hno
      rw [Outcome.redirect?_eq_none_iff.2 (Bool.eq_false_iff.2 hno)] at hr
      cases hr
    rw [hred]
    rfl

theorem of_turning {d k : Nat} {a : ActivationRun} {j : Activator.Job} (h : C.turning d a k = some j) :
    k < a.length.toNat ∧ j = .ofRow a k ∧
      (0 < k → (Sequential.outcome C.chip (C.memories d).acc a 0).redirects = false) := by
  obtain ⟨hgo, hj⟩ := Option.ite_none_left_eq_some.1 h
  obtain ⟨hk, hj⟩ := Option.ite_none_right_eq_some.1 hj
  refine ⟨hk, (Option.some.inj hj).symm, fun h0 => ?_⟩
  rw [← Bool.not_eq_true]
  exact fun hred => hgo ⟨h0, hred⟩

/-- Every row that is turned belongs to an activation. -/
theorem exists_issue_of_actJob? {t : Nat} {j : Activator.Job} (h : C.actJob? t = some j) :
    ∃ d a k, C.issue d = some (.activate a) ∧ t = d + k ∧ C.turning d a k = some j := by
  obtain ⟨d, a, k, hd, ht, hrun⟩ : ∃ d a k, (C.issue d).bind (·.activation?) = some a ∧ t = d + k ∧
      C.turning d a k = some j := by
    refine exists_given (fun t => (C.issue t).bind (·.activation?)) C.actJob? C.turning ?_ ?_ ?_ h
    · intro _
      refine actJob?_eq_none ?_ fun a ha => ?_
      · rw [actJob, pipeline_free_zero]
        rfl
      · rw [issue_zero] at ha
        cases ha
    · intro t a ha
      have hstart : C.turning t a 0 = Activator.jobAt a 0 := if_neg fun hpos => absurd hpos.1 (Nat.lt_irrefl 0)
      rw [actJob?, ha, hstart, Activator.jobAt_zero]
    · intro t j hnone hj
      rw [actJob?, hnone, Activator.job?, Option.map_none, Option.none_or] at hj
      obtain ⟨hjob, -⟩ := Option.filter_eq_some_iff.1 hj
      have hnext : C.actJob (t + 1) = some j := hjob
      obtain ⟨i, hi, -⟩ := Option.bind_eq_some_iff.1 ((actJob_succ t).symm.trans hnext)
      refine ⟨i, hi, ?_⟩
      rintro d a k rfl hrun
      obtain ⟨hk, rfl, hlater⟩ := of_turning hrun
      rw [actJob_of_row hi hk] at hnext
      obtain ⟨hstays, hnext⟩ := Option.ite_none_left_eq_some.1 hnext
      refine (if_neg ?_).trans hnext
      rintro ⟨-, hred⟩
      cases k with
      | zero => exact hstays hred
      | succ k =>
        rw [hlater (Nat.succ_pos k)] at hred
        cases hred
  obtain ⟨c, hc, hca⟩ := Option.bind_eq_some_iff.1 hd
  cases c <;> cases hca
  exact ⟨d, a, k, hc, ht, hrun⟩

/-- An activation turns its rows one after the other, unless its first row redirects. -/
theorem actJob?_of_issue {d : Nat} {a : ActivationRun} (h : C.issue d = some (.activate a))
    (hgo : (Sequential.outcome C.chip (C.memories d).acc a 0).redirects = false) {k : Nat} (hk : k < a.length.toNat) :
    C.actJob? (d + k) = some (.ofRow a k) := by
  induction k with
  | zero =>
    rw [actJob?, Nat.add_zero, h]
    exact (Activator.jobAt_zero a _).trans (if_pos hk)
  | succ k ih =>
    have hstays : (Sequential.outcome C.chip (C.memories (d + k)).acc a k).redirects = false := by
      cases k with
      | zero => exact hgo
      | succ k => exact Outcome.redirect?_eq_none_iff.1 (Outcome.redirect?_later _ _ _ a.pc)
    have hnext : C.actJob (d + k + 1) = Activator.jobAt a (k + 1) := by
      rw [actJob_of_row (ih (by omega)) (by omega), hstays]
      rfl
    -- no command reaches the unit while it has a job
    have halone : (C.issue (d + k + 1)).bind (·.activation?) = none := by
      by_contra hsome
      have hidle := (counted_free (d + k + 1)).activate.alone (Option.isSome_iff_ne_none.2 hsome)
      rw [Activator.jobAt, if_pos hk] at hnext
      rw [show C.actJob (d + k + 1) = none from hidle] at hnext
      cases hnext
    rw [← Nat.add_assoc, actJob?, halone]
    exact (Activator.job?_jobAt hnext).trans (if_pos hk)

/-- **What the activation unit writes in a cycle**: the row of the activation that has come to it. -/
theorem act_write_iff {t : Nat} {w : RowStore.Write} : (C.act t).write = some w ↔ ∃ d a k,
    C.issue d = some (.activate a) ∧ t = d + k ∧ k < a.length.toNat ∧
      (Sequential.outcome C.chip (C.memories d).acc a 0).redirects = false ∧
      Sequential.rowWrite C.chip (C.memories t).acc a k = some w := by
  constructor
  · intro hw
    cases hj : C.actJob? t with
    | none =>
      rw [(act_of_idle hj).1] at hw
      cases hw
    | some j =>
      obtain ⟨d, a, k, hd, rfl, hrun⟩ := exists_issue_of_actJob? hj
      obtain ⟨hk, rfl, hlater⟩ := of_turning hrun
      rw [act_eq, hj, Option.map_some, Option.getD_some, Activator.Job.step_ofRow] at hw
      cases hr : (Sequential.outcome C.chip (C.memories (d + k)).acc a k).redirect? a.pc with
      | some target =>
        rw [hr] at hw
        cases hw
      | none =>
        rw [hr] at hw
        refine ⟨d, a, k, hd, rfl, hk, ?_, hw⟩
        cases k with
        | zero => exact Outcome.redirect?_eq_none_iff.1 hr
        | succ k => exact hlater (Nat.succ_pos k)
  · rintro ⟨d, a, k, hd, rfl, hk, hgo, hw⟩
    have hj := actJob?_of_issue hd hgo hk
    have hr : (Sequential.outcome C.chip (C.memories (d + k)).acc a k).redirect? a.pc = none := by
      cases k with
      | zero => exact Outcome.redirect?_eq_none_iff.2 hgo
      | succ k => exact Outcome.redirect?_later _ _ _ a.pc
    rw [act_eq, hj, Option.map_some, Option.getD_some, Activator.Job.step_ofRow, hr]
    exact hw

/-! ## Transfers -/

theorem link_zero : C.link 0 = {} := by
  rw [link, pipeline_free_zero]
  rfl

section Direction

variable {asks : Command → Option Transfer} {job : HostLink → Option HostLink.Job}
  {running : HostLink → Option Command → Option HostLink.Job} (D : HostLink.Direction asks job running)
include D

theorem hostSet_of_asked {d : Nat} {T : Transfer} (h : (C.issue d).bind asks = some T) :
    (C.issue d).bind hostSet = some (hostSpan T.length) := by
  obtain ⟨c, hc, hcT⟩ := Option.bind_eq_some_iff.1 h
  rw [hc]
  exact D.charged c T hcT

/-- Nothing else reaches the link until the rows of a transfer have been moved. -/
theorem hostSet_eq_none {d t k : Nat} (hfit : C.HostFit t) {T : Transfer} (h : (C.issue d).bind asks = some T)
    (hdt : d ≤ t) (hpos : 0 < k) (hk : k ≤ T.length.toNat + 1) : (C.issue (d + k)).bind hostSet = none := by
  have hset := hostSet_of_asked D h
  have hcounts : Counts C.chip hostSet (·.host) := counts_host C.chip
  have hspan : hostSpan T.length < 2 ^ 64 := by
    obtain ⟨c, hc, hcT⟩ := Option.bind_eq_some_iff.1 hset
    rw [hcounts.span c _ hcT]
    exact hfit d hdt c hc (unitClass_of_hostSet hcT)
  exact (countdown hcounts).set_eq_none hset hspan hpos hk

/-- No other transfer reaches the link until the rows of one have been moved. -/
theorem running_of_issue {d k : Nat} (hfit : C.HostFit d) {T : Transfer} (h : (C.issue d).bind asks = some T)
    (hk : k ≤ T.length.toNat) : running (C.link (d + k)) (C.issue (d + k)) = HostLink.jobAt T k := by
  induction k with
  | zero =>
    rw [Nat.add_zero, D.running_eq, h]
    exact HostLink.jobAt_zero T
  | succ k ih =>
    have hquiet : (C.issue (d + k + 1)).bind hostSet = none :=
      hostSet_eq_none D hfit h (k := k + 1) (Nat.le_refl d) (Nat.succ_pos k) (by omega)
    have hnone : (C.issue (d + k + 1)).bind asks = none := by
      by_contra hsome
      obtain ⟨U, hU⟩ := Option.ne_none_iff_exists'.1 hsome
      obtain ⟨b, hb, hbU⟩ := Option.bind_eq_some_iff.1 hU
      rw [hb, Option.bind_some, D.charged b U hbU] at hquiet
      cases hquiet
    rw [← Nat.add_assoc, D.running_eq, hnone, Option.map_none, Option.none_or, link_succ, D.step, ih (by omega),
      HostLink.bind_jobAt, HostLink.filter_jobAt]

/-- Every row that is moved belongs to a transfer. -/
theorem exists_issue_of_running {t : Nat} {j : HostLink.Job} (h : running (C.link t) (C.issue t) = some j) :
    ∃ d T k, (C.issue d).bind asks = some T ∧ t = d + k ∧ HostLink.jobAt T k = some j := by
  refine exists_given (fun t => (C.issue t).bind asks) (fun t => running (C.link t) (C.issue t))
    (fun _ => HostLink.jobAt) ?_ ?_ ?_ h
  · intro hnone
    rw [D.running_eq, hnone, link_zero, D.idle]
    rfl
  · intro t T hT
    rw [D.running_eq, hT]
    exact HostLink.jobAt_zero T
  · intro t j hnone hj
    rw [D.running_eq, hnone, Option.map_none, Option.none_or, link_succ, D.step] at hj
    obtain ⟨i, hi, hnext⟩ := Option.bind_eq_some_iff.1 (Option.filter_eq_some_iff.1 hj).1
    refine ⟨i, hi, fun _ T k _ hrun => ?_⟩
    rw [← HostLink.bind_jobAt, hrun]
    exact hnext

/-- A host command finds no transfer under way. -/
theorem job_eq_none {t : Nat} (hfit : C.HostFit t) {n : Nat} (hset : (C.issue t).bind hostSet = some n) :
    job (C.link t) = none := by
  cases t with
  | zero => rw [link_zero, D.idle]
  | succ t =>
    by_contra hne
    obtain ⟨j, hj⟩ := Option.ne_none_iff_exists'.1 hne
    rw [link_succ, D.step] at hj
    obtain ⟨i, hi, -⟩ := Option.bind_eq_some_iff.1 hj
    obtain ⟨d, T, k, hd, rfl, hrun⟩ := exists_issue_of_running D hi
    have hk := (HostLink.of_jobAt hrun).1
    have hquiet : (C.issue (d + k + 1)).bind hostSet = none :=
      hostSet_eq_none D hfit hd (k := k + 1) (by omega) (Nat.succ_pos k) (by omega)
    rw [hset] at hquiet
    cases hquiet

end Direction

/-- **What the host link writes to the host in a cycle**: the row of the transfer that has come to it. -/
theorem hostWrite_iff {t : Nat} (hfit : C.HostFit t) {w : RowStore.Write} :
    (C.transferred t).hostWrite = some w ↔ ∃ d T k, C.issue d = some (.writeHost T) ∧ t = d + k ∧ k < T.length.toNat ∧
      w = ⟨T.hostAddr + UInt64.ofNat k, (C.memories t).pad.read (T.padAddr + UInt64.ofNat k)⟩ := by
  rw [hostWrite_eq]
  constructor
  · intro hw
    obtain ⟨j, hj, rfl⟩ := Option.map_eq_some_iff.1 hw
    obtain ⟨d, T, k, hd, ht, hrun⟩ := exists_issue_of_running HostLink.direction_writing hj
    obtain ⟨hk, rfl⟩ := HostLink.of_jobAt hrun
    obtain ⟨c, hc, hcT⟩ := Option.bind_eq_some_iff.1 hd
    cases c <;> cases hcT
    exact ⟨d, T, k, hc, ht, hk, rfl⟩
  · rintro ⟨d, T, k, hd, rfl, hk, rfl⟩
    have hasks : (C.issue d).bind Command.writes? = some T := by rw [hd]; rfl
    have hrun := running_of_issue HostLink.direction_writing (hfit.mono (by omega)) hasks (Nat.le_of_lt hk)
    rw [hrun, HostLink.jobAt, if_pos hk]
    rfl

/-- **What the host link writes to the scratchpad in a cycle**: the row that was read from the host in the cycle before,
or a jump row that was asked for. -/
theorem padWrite_iff {t : Nat} (hfit : C.HostFit t) {w : RowStore.Write} : (C.transferred t).padWrite = some w ↔
    (∃ d T k, C.issue d = some (.readHost T) ∧ t = d + 1 + k ∧ k < T.length.toNat ∧
      w = ⟨T.padAddr + UInt64.ofNat k, (C.memories (d + k)).host.read (T.hostAddr + UInt64.ofNat k)⟩) ∨
    ∃ d target addr, C.issue d = some (.placeJump target addr) ∧ t = d + 1 ∧
      w = ⟨addr, HostLink.jumpRow C.chip target⟩ := by
  rw [padWrite_eq]
  cases t with
  | zero =>
    rw [link_zero]
    constructor
    · intro hw
      cases hw
    · rintro (⟨d, -, k, -, ht, -⟩ | ⟨d, -, -, -, ht, -⟩) <;> omega
  | succ t =>
    rw [response_succ, HostLink.respond?_eq_some_iff]
    constructor
    · rintro (⟨j, hj, rfl⟩ | ⟨-, target, addr, hissue, rfl⟩)
      · obtain ⟨d, T, k, hd, rfl, hrun⟩ := exists_issue_of_running HostLink.direction_reading hj
        obtain ⟨hk, rfl⟩ := HostLink.of_jobAt hrun
        obtain ⟨c, hc, hcT⟩ := Option.bind_eq_some_iff.1 hd
        cases c <;> cases hcT
        exact Or.inl ⟨d, T, k, hc, by omega, hk, rfl⟩
      · exact Or.inr ⟨t, target, addr, hissue, rfl, rfl⟩
    · rintro (⟨d, T, k, hd, ht, hk, rfl⟩ | ⟨d, target, addr, hd, ht, rfl⟩)
      · obtain rfl : t = d + k := by omega
        have hasks : (C.issue d).bind Command.reads? = some T := by rw [hd]; rfl
        have hrun := running_of_issue HostLink.direction_reading (hfit.mono (by omega)) hasks (Nat.le_of_lt hk)
        exact Or.inl ⟨_, hrun.trans (if_pos hk), rfl⟩
      · obtain rfl : t = d := by omega
        have hset : (C.issue t).bind hostSet = some (hostSpan 1) := by rw [hd]; rfl
        have hidle : (C.link t).reading = none :=
          job_eq_none HostLink.direction_reading (hfit.mono (Nat.le_succ t)) hset
        refine Or.inr ⟨?_, target, addr, hd, rfl⟩
        rw [HostLink.direction_reading.running_eq, hd, hidle]
        rfl

end Course

end Systolic
