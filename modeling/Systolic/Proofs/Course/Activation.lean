import Systolic.Proofs.Course.Host

/-!
# Activations in a course

The activation unit on its own, cycle by cycle. An activation turns one accumulator row after the other into a scratchpad
row (`act_of_job`), unless its first row is a branch or a jump: then it redirects the program counter and ends
(`act_of_redirect`). Without a job and a command the unit does nothing (`act_of_idle`).
-/

namespace Systolic

/-- Only a first row can redirect the program counter. -/
theorem Outcome.redirect?_later (chip : Chip) (f : Activation) (row : Row) (pc : UInt64) :
    (decode chip f false row).redirect? pc = none := by
  unfold decode
  dsimp only
  cases Tag.ofCode? (row.getD (row.length - 1) 0) with
  | none => rfl
  | some tag => cases tag <;> rfl

namespace Activator

/-- The job once `i` rows have been turned. -/
def Job.ofRow (a : ActivationRun) (i : Nat) : Job :=
  ⟨a.accAddr + UInt64.ofNat i, a.padAddr + UInt64.ofNat i, a.length - UInt64.ofNat i, a.function, a.pc, i == 0⟩

/-- The job once `i` rows have been turned, if a row is left. -/
def jobAt (a : ActivationRun) (i : Nat) : Option Job := if i < a.length.toNat then some (.ofRow a i) else none

theorem Job.next?_ofRow {a : ActivationRun} {i : Nat} (h : i ≤ a.length.toNat) : (ofRow a i).next? = jobAt a (i + 1) := by
  simp only [next?, ofRow, jobAt, one_lt_sub_ofNat_iff h, add_ofNat_succ, sub_ofNat_succ]
  rfl

/-- A job turns its row as the reference does. -/
theorem Job.step_ofRow (chip : Chip) (store : AccStore) (a : ActivationRun) (i : Nat) : (ofRow a i).step chip store =
    match (Sequential.outcome chip store a i).redirect? a.pc with
    | some target => ({}, { redirect := some target, resolved := true })
    | none => (⟨(ofRow a i).next?⟩, { write := Sequential.rowWrite chip store a i }) := rfl

/-- The job of a cycle, if it has a row left. -/
def job? (u : Activator) (issue : Option ActivationRun) : Option Job :=
  ((issue.map Job.ofCommand).or u.job).filter (·.remaining != 0)

theorem step_eq (chip : Chip) (u : Activator) (issue : Option ActivationRun) (store : AccStore) :
    u.step chip issue store = ((u.job? issue).map (Job.step chip store)).getD ({}, {}) := by
  unfold step job?
  cases (issue.map Job.ofCommand).or u.job with
  | none => rfl
  | some j => by_cases h : j.remaining = 0 <;> simp [Option.filter, h]

theorem jobAt_zero (a : ActivationRun) (u : Activator) : u.job? (some a) = jobAt a 0 := by
  by_cases h : a.length = 0
  · simp [job?, jobAt, Job.ofCommand, h]
  · have hlt := toNat_pos_iff.2 h
    simp [job?, jobAt, Job.ofRow, Job.ofCommand, hlt, h]

theorem job?_jobAt {u : Activator} {a : ActivationRun} {i : Nat} (h : u.job = jobAt a i) :
    u.job? none = jobAt a i := by
  unfold job?
  rw [h, Option.map_none, Option.none_or, jobAt]
  by_cases hi : i < a.length.toNat
  · have hne : ¬ a.length - UInt64.ofNat i = 0 := by
      rw [sub_ofNat_eq_zero_iff (by omega)]
      omega
    simp [hi, Job.ofRow, hne]
  · simp [hi]

end Activator

namespace Course

variable (C : Course)

/-- The job that the activation unit still has at the start of cycle `t`. -/
def actJob (t : Nat) : Option Activator.Job := (C.free t).pipeline.activator.job

/-- The job of the activation unit in cycle `t`, if it has a row left. -/
def actJob? (t : Nat) : Option Activator.Job :=
  (C.free t).pipeline.activator.job? ((C.issue t).bind (·.activation?))

variable {C}

theorem act_eq (t : Nat) : C.act t =
    ((C.actJob? t).map fun j => (j.step C.chip (C.memories t).acc).2).getD {} := by
  rw [act, Activator.step_eq, actJob?]
  cases (C.free t).pipeline.activator.job? ((C.issue t).bind (·.activation?)) <;> rfl

theorem actJob_succ (t : Nat) : C.actJob (t + 1) =
    (C.actJob? t).bind fun j => (j.step C.chip (C.memories t).acc).1.job := by
  have hstep : (C.free t).step.1.pipeline.activator =
      ((C.free t).pipeline.activator.step (C.free t).chip ((C.issue t).bind (·.activation?)) (C.memories t).acc).1 := rfl
  rw [actJob, pipeline_free_succ, hstep, chip_free, Activator.step_eq, actJob?]
  cases (C.free t).pipeline.activator.job? ((C.issue t).bind (·.activation?)) <;> rfl

/-- Without a row to turn, the unit does nothing. -/
theorem act_of_idle {t : Nat} (h : C.actJob? t = none) : C.act t = {} ∧ C.actJob (t + 1) = none := by
  rw [act_eq, actJob_succ, h]
  exact ⟨rfl, rfl⟩

/-- An idle unit gets no row to turn from a command for another one, or from an activation of no rows. -/
theorem actJob?_eq_none {t : Nat} (h : C.actJob t = none)
    (hi : ∀ a, C.issue t = some (.activate a) → a.length = 0) : C.actJob? t = none := by
  unfold actJob? Activator.job?
  rw [show (C.free t).pipeline.activator.job = none from h]
  cases hc : C.issue t with
  | none => rfl
  | some c =>
    cases c <;> first | rfl | skip
    rename_i a
    simp [Command.activation?, Activator.Job.ofCommand, hi a hc]

/-- A branch or a jump ends the activation. -/
theorem act_of_redirect {t : Nat} {a : ActivationRun} {target : UInt64} (h : C.actJob? t = Activator.jobAt a 0)
    (hlen : 0 < a.length.toNat)
    (hr : (Sequential.outcome C.chip (C.memories t).acc a 0).redirect? a.pc = some target) :
    C.act t = { redirect := some target, resolved := true } ∧ C.actJob (t + 1) = none := by
  rw [act_eq, actJob_succ, h, Activator.jobAt, if_pos hlen, Option.map_some, Option.bind_some, Activator.Job.step_ofRow, hr]
  exact ⟨rfl, rfl⟩

/-- Row `k` of an activation that does not redirect is written, and the next row follows. -/
theorem act_of_job {t k : Nat} {a : ActivationRun} (h : C.actJob? t = Activator.jobAt a k)
    (hr : k < a.length.toNat → (Sequential.outcome C.chip (C.memories t).acc a k).redirect? a.pc = none) :
    C.act t = { write := if k < a.length.toNat then Sequential.rowWrite C.chip (C.memories t).acc a k else none } ∧
      C.actJob (t + 1) = Activator.jobAt a (k + 1) := by
  rw [act_eq, actJob_succ, h, Activator.jobAt]
  by_cases hk : k < a.length.toNat
  · rw [if_pos hk, if_pos hk, Option.map_some, Option.bind_some, Activator.Job.step_ofRow, hr hk,
      ← Activator.Job.next?_ofRow (Nat.le_of_lt hk)]
    exact ⟨rfl, rfl⟩
  · rw [if_neg hk, if_neg hk, Activator.jobAt, if_neg (by omega)]
    exact ⟨rfl, rfl⟩

end Course

end Systolic
