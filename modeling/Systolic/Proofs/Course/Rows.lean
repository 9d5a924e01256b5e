import Systolic.Proofs.Course.Dispatch
import Systolic.Proofs.Word.Offset

/-!
# The rows of a multiplication

A multiplication that is dispatched in cycle `d` pushes its rows in the cycles `d + 1`, `d + 2`, … one after the other
(`row?_of_issue`). Only a first row carries a switch, so the switches pushed before a cycle are those of the
multiplications dispatched until then (`switched_rows`).
-/

namespace Systolic

/-- A multiplication that brings in the next tile: with a switch, and with a row to carry it. -/
def Instruction.switches (i : Instruction) : Bool :=
  i.opcode == .multiply && (i.has Instruction.switchBit && i.length != 0)

/-- The switches of an instruction are those of its command. -/
theorem Sequencer.switches_eq (chip : Chip) (pad : RowStore) (pc : UInt64) (i : Instruction) :
    i.switches = ((command? chip pad pc i).bind (·.multiplication?)).any fun m => m.switch && m.length != 0 := by
  have hb (a b : Opcode) : (a == b) = decide (a = b) := rfl
  cases ho : i.opcode <;> simp [command?, ho, Instruction.switches, Command.multiplication?, hb]
  split <;> rfl

namespace RowSource

/-- The job once `i` rows have been read. -/
def Job.after (j : Job) (i : Nat) : Job :=
  ⟨j.padAddr + UInt64.ofNat i, j.accAddr + UInt64.ofNat i, j.remaining - UInt64.ofNat i, j.overwrite,
    j.switch && i == 0⟩

/-- What a cycle leaves of a job that may have no row left. -/
def Job.left? (j : Job) : Option Job := if j.remaining = 0 then none else j.next?

@[simp] theorem Job.after_zero (j : Job) : j.after 0 = j := by
  cases j
  simp [after]

theorem Job.next?_after {j : Job} {i : Nat} (h : i ≤ j.remaining.toNat) :
    (j.after i).next? = if i + 1 < j.remaining.toNat then some (j.after (i + 1)) else none := by
  simp only [next?, after, one_lt_sub_ofNat_iff h, add_ofNat_succ, sub_ofNat_succ]
  simp

theorem Job.left?_after {j : Job} {i : Nat} (h : i < j.remaining.toNat) :
    (j.after i).left? = if i + 1 < j.remaining.toNat then some (j.after (i + 1)) else none := by
  have hne : ¬ (j.after i).remaining = 0 := by
    simp only [after]
    rw [sub_ofNat_eq_zero_iff (by omega)]
    omega
  rw [left?, if_neg hne, next?_after (by omega)]

/-- The row that a job reads when `i` rows have been read. -/
theorem Job.row_after {j : Job} {i : Nat} (h : i < j.remaining.toNat) (pad : RowStore) :
    (j.after i).row pad = ⟨pad.read (j.padAddr + UInt64.ofNat i), j.switch && i == 0,
      ⟨j.accAddr + UInt64.ofNat i, j.overwrite, decide (i + 1 = j.remaining.toNat)⟩⟩ := by
  have hlast : ((j.remaining - UInt64.ofNat i) == 1) = decide (i + 1 = j.remaining.toNat) := by
    rw [Bool.eq_iff_iff, beq_iff_eq, decide_eq_true_iff, ← UInt64.toNat_inj, toNat_sub_ofNat (by omega)]
    simp
    omega
  simp only [row, after, hlast]

/-- What a multiplication has come to after `k` rows; one without rows is there for a cycle. -/
def jobAt (m : Multiplication) (k : Nat) : Option Job :=
  if k = 0 ∨ k < m.length.toNat then some ((Job.ofCommand m).after k) else none

theorem lt_of_jobAt {m : Multiplication} {k : Nat} {j : Job} (h : jobAt m k = some j) (hne : j.remaining ≠ 0) :
    k < m.length.toNat ∧ j = (Job.ofCommand m).after k := by
  obtain ⟨hk, hj⟩ := Option.ite_none_right_eq_some.1 h
  obtain rfl := Option.some.inj hj
  refine ⟨?_, rfl⟩
  rcases hk with rfl | hk
  · exact toNat_pos_iff.2 (by simpa [Job.ofCommand] using hne)
  · exact hk

theorem left?_jobAt {m : Multiplication} {k : Nat} {i j : Job} (h : jobAt m k = some i)
    (hj : i.left? = some j) : jobAt m (k + 1) = some j := by
  have hne : i.remaining ≠ 0 := by
    intro h0
    rw [Job.left?, if_pos h0] at hj
    cases hj
  obtain ⟨hk, rfl⟩ := lt_of_jobAt h hne
  rw [Job.left?_after hk] at hj
  obtain ⟨hlt, hnext⟩ := Option.ite_none_right_eq_some.1 hj
  exact (if_pos (Or.inr hlt)).trans hnext

variable (s : RowSource) (issue : Option Multiplication) (pad : RowStore)

theorem job_step : (s.step issue pad).1.job = ((issue.map Job.ofCommand).or s.job).bind Job.left? := by
  unfold step
  cases (issue.map Job.ofCommand).or s.job with
  | none => rfl
  | some j => by_cases h : j.remaining = 0 <;> simp [Job.left?, h]

theorem row_step : (s.step issue pad).2 = ((issue.map Job.ofCommand).or s.job).bind fun j =>
    if j.remaining = 0 then none else some (j.row pad) := by
  unfold step
  cases (issue.map Job.ofCommand).or s.job with
  | none => rfl
  | some j => by_cases h : j.remaining = 0 <;> simp [h]

end RowSource

namespace Course

open RowSource

variable (C : Course)

/-- The multiplication that the row source sees in cycle `t`. -/
def multiplication? (t : Nat) : Option Multiplication := (C.issue t).bind (·.multiplication?)

def rowJob (t : Nat) : Option RowSource.Job := (C.free t).pipeline.source.job

/-- Switches dispatched before cycle `t`. -/
def switchCount (t : Nat) : Nat := Nat.count (fun u => (C.dispatched u).any (·.switches) = true) t

variable {C}

theorem rowJob_zero : C.rowJob 0 = none := by
  rw [rowJob, pipeline_free_zero]
  rfl

theorem rowJob_succ (t : Nat) :
    C.rowJob (t + 1) = (((C.multiplication? t).map Job.ofCommand).or (C.rowJob t)).bind Job.left? := by
  rw [rowJob, pipeline_free_succ]
  exact job_step _ _ _

theorem row?_eq (t : Nat) : C.row? t = (((C.multiplication? t).map Job.ofCommand).or (C.rowJob t)).bind fun j =>
    if j.remaining = 0 then none else some (j.row (C.memories t).pad) := row_step _ _ _

theorem command?_multiply {chip : Chip} {pad : RowStore} {pc : UInt64} {i : Instruction} (h : i.opcode = .multiply) :
    Sequencer.command? chip pad pc i = some (.multiply ⟨i.padAddr, i.memAddr, i.length,
      i.has Instruction.overwriteBit, i.has Instruction.switchBit⟩) := by
  simp only [Sequencer.command?, h]

section Span

variable {d : Nat} {m : Multiplication} (h : C.issue d = some (.multiply m))
  (hfit : (Command.multiply m).SpanFits C.chip)
include h hfit

/-- No multiplication reaches the row source while one that fits is running. -/
theorem multiplication?_eq_none {i : Nat} (h0 : 0 < i) (hi : i ≤ C.chip.matrixSpan m.length) :
    C.multiplication? (d + i) = none := by
  have hset : (C.issue d).bind (Sequencer.matrixSet C.chip) = some (C.chip.matrixSpan m.length) := by rw [h]; rfl
  have hnone := (countdown (Sequencer.counts_matrix C.chip)).set_eq_none hset hfit h0 hi
  unfold multiplication?
  cases hc : C.issue (d + i) with
  | none => rfl
  | some c =>
    rw [hc] at hnone
    cases c <;> first | rfl | cases hnone

/-- The job of a multiplication whose command arrived `k` cycles ago. -/
theorem job_of_issue :
    ∀ k ≤ m.length.toNat - 1, ((C.multiplication? (d + k)).map Job.ofCommand).or (C.rowJob (d + k)) =
      some ((Job.ofCommand m).after k) := by
  refine running_job rowJob_succ ?_ ?_ ?_
  · simp [multiplication?, h, Command.multiplication?]
  · intro k h0 hk
    rw [multiplication?_eq_none h hfit h0 (by unfold Chip.matrixSpan; omega)]
    rfl
  · intro k hk
    have hlt : k + 1 < m.length.toNat := by omega
    rw [Job.left?_after (show k < (Job.ofCommand m).remaining.toNat from by simp only [Job.ofCommand]; omega)]
    exact if_pos hlt

/-- **The rows of a multiplication** are pushed one after the other, from the cycle on in which its command arrives. -/
theorem row?_of_issue {i : Nat} (hi : i < m.length.toNat) :
    C.row? (d + i) = some ⟨(C.memories (d + i)).pad.read (m.padAddr + UInt64.ofNat i), m.switch && i == 0,
      ⟨m.accAddr + UInt64.ofNat i, m.overwrite, decide (i + 1 = m.length.toNat)⟩⟩ := by
  have hne : ¬ ((Job.ofCommand m).after i).remaining = 0 := by
    simp only [Job.after, Job.ofCommand]
    rw [sub_ofNat_eq_zero_iff (by omega)]
    omega
  rw [row?_eq, job_of_issue h hfit i (by omega), Option.bind_some, if_neg hne, Job.row_after hi]
  rfl

/-- After the last row of a multiplication the source has nothing left. -/
theorem rows_over :
    C.row? (d + m.length.toNat) = none ∧ C.rowJob (d + m.length.toNat + 1) = none := by
  rw [row?_eq, rowJob_succ]
  cases hn : m.length.toNat with
  | zero =>
    have hjob := job_of_issue h hfit 0 (Nat.zero_le _)
    have hzero : (Job.ofCommand m).remaining = 0 := UInt64.toNat_inj.1 hn
    rw [Nat.add_zero] at hjob ⊢
    rw [hjob, Job.after_zero, Option.bind_some, Option.bind_some, Job.left?, if_pos hzero, if_pos hzero]
    exact ⟨rfl, rfl⟩
  | succ n =>
    have hlast : C.rowJob (d + n + 1) = none := by
      rw [rowJob_succ, job_of_issue h hfit n (by omega), Option.bind_some,
        Job.left?_after (show n < (Job.ofCommand m).remaining.toNat by simp only [Job.ofCommand]; omega)]
      exact if_neg (by simp only [Job.ofCommand]; omega)
    rw [← Nat.add_assoc, hlast, Nat.add_assoc d, multiplication?_eq_none h hfit (Nat.succ_pos n)
      (by unfold Chip.matrixSpan; omega)]
    exact ⟨rfl, rfl⟩

end Span

/-- Every row that is pushed belongs to a multiplication. -/
theorem exists_issue_of_row? {u : Nat} (h : C.row? u ≠ none) : ∃ d m k, C.issue d = some (.multiply m) ∧ u = d + k ∧
    k < m.length.toNat := by
  obtain ⟨x, hx⟩ := Option.ne_none_iff_exists'.1 h
  rw [row?_eq] at hx
  obtain ⟨j, hj, hrow⟩ := Option.bind_eq_some_iff.1 hx
  have hne : j.remaining ≠ 0 := by
    intro h0
    rw [if_pos h0] at hrow
    cases hrow
  obtain ⟨d, m, k, hd, hu, hrun⟩ : ∃ d m k, C.multiplication? d = some m ∧ u = d + k ∧ jobAt m k = some j := by
    refine exists_given C.multiplication? (fun t => ((C.multiplication? t).map Job.ofCommand).or (C.rowJob t))
      (fun _ => jobAt) ?_ ?_ ?_ hj
    · intro hm
      rw [hm, rowJob_zero]
      rfl
    · intro t m hm
      rw [hm]
      simp [jobAt]
    · intro t j hm hrun
      rw [hm, Option.map_none, Option.none_or, rowJob_succ] at hrun
      obtain ⟨i, hi, hleft⟩ := Option.bind_eq_some_iff.1 hrun
      exact ⟨i, hi, fun _ _ _ _ hat => left?_jobAt hat hleft⟩
  obtain ⟨c, hc, hcm⟩ := Option.bind_eq_some_iff.1 hd
  cases c <;> cases hcm
  exact ⟨d, m, k, hc, hu, (lt_of_jobAt hrun hne).1⟩

/-! ## Switches -/

/-- Only the first row of a multiplication carries a switch. -/
theorem switch_rowJob {t : Nat} {j : RowSource.Job} (h : C.rowJob t = some j) : j.switch = false := by
  cases t with
  | zero => rw [rowJob_zero] at h; cases h
  | succ t =>
    rw [rowJob_succ] at h
    obtain ⟨i, -, hi⟩ := Option.bind_eq_some_iff.1 h
    unfold Job.left? Job.next? at hi
    split at hi
    · cases hi
    · split at hi <;> cases hi
      rfl

theorem switches_row? (t : Nat) : MatrixRow.switches (C.row? t) =
    (C.multiplication? t).any fun m => m.switch && m.length != 0 := by
  rw [row?_eq]
  cases hm : C.multiplication? t with
  | none =>
    cases hj : C.rowJob t with
    | none => rfl
    | some j =>
      have hs := switch_rowJob hj
      by_cases h0 : j.remaining = 0 <;> simp [MatrixRow.switches, h0, Job.row, hs]
  | some m => by_cases h0 : m.length = 0 <;> simp [MatrixRow.switches, Job.ofCommand, h0, Job.row]

/-- The row that carries a switch is pushed in the cycle after the dispatch of its multiplication. -/
theorem switches_row?_succ (t : Nat) :
    MatrixRow.switches (C.row? (t + 1)) = (C.dispatched t).any (·.switches) := by
  rw [switches_row?, multiplication?, issue_succ]
  cases C.dispatched t with
  | none => rfl
  | some i => exact (Sequencer.switches_eq _ _ _ i).symm

/-- The switches pushed before a cycle are those of the multiplications dispatched until then. -/
theorem switched_rows (t : Nat) : MatrixRow.switched C.row? (t + 1) = C.switchCount t := by
  have h0 : MatrixRow.switches (C.row? 0) = false := by
    rw [switches_row?, multiplication?, issue_zero]
    rfl
  rw [MatrixRow.switched, Nat.count_succ', if_neg (by simp [h0])]
  simp only [switches_row?_succ, Nat.add_zero]
  rfl

end Course

end Systolic
