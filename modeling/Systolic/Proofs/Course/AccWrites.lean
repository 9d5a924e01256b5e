import Systolic.Proofs.Course.Multiply
import Systolic.Proofs.Machine.Step

/-!
# Every write into the accumulators

If the spans of the multiplications fit their counter, row `k` of one that is dispatched in cycle `d` acts on column `c`
in cycle `d + 2 + N + k + c`, and nothing else acts on the column (`arriving_of_reaches`, `reaches_of_arriving`). None
of this depends on the values that go through the array, so hazards that are only logged change nothing about it.
`accumulator_account` puts together what the writes of a cycle are, what they change, and when a multiplication is
reported as done.
-/

namespace Systolic

/-- The control that row `k` of multiplication `i` carries. -/
def Instruction.rowControl (i : Instruction) (k : Nat) : AccControl :=
  ⟨i.memAddr + UInt64.ofNat k, i.has overwriteBit, decide (k + 1 = i.length.toNat)⟩

namespace Course

variable (C : Course)

/-- Row `k` of multiplication `i`, dispatched by tick `d`, acts on column `c` in cycle `t`. -/
structure Reaches (d : Nat) (i : Instruction) (k c t : Nat) : Prop where
  issued : C.issued d = some i
  opcode : i.opcode = .multiply
  row : k < i.length.toNat
  column : c < C.chip.size
  cycle : t = d + 2 + C.chip.size + k + c

/-- Multiplication `i`, dispatched by tick `d`, has a last row, and it acts on the last column in cycle `t`. -/
structure Finishes (d : Nat) (i : Instruction) (t : Nat) : Prop where
  issued : C.issued d = some i
  opcode : i.opcode = .multiply
  rows : 1 ≤ i.length.toNat
  cycle : t = d + 2 * C.chip.size + i.length.toNat

/-- What row `k` of `i` writes into column `c` in cycle `t`: the sum that leaves the array there, in place of what stands
in the cell or added to it. -/
def written (t : Nat) (i : Instruction) (k c : Nat) : AccStore.Write :=
  let sum := (C.machine t).product.sums.getD c 0
  let addr := i.memAddr + UInt64.ofNat k
  ⟨c, addr, if i.has Instruction.overwriteBit then sum
    else Word.wrap C.chip.accWidth ((C.machine t).memories.acc.read c addr + sum)⟩

/-- Every write into the accumulators in cycle `t`, and what is reported as done in it. -/
structure AccAccount (t : Nat) : Prop where
  /-- Nothing but the writes of the columns changes the accumulators. -/
  acc : (C.machine t).ticked.memories.acc = (C.machine t).memories.acc.apply (C.machine t).committed.writes
  /-- Every write is that of a row that reaches the column. -/
  of_committed : ∀ w ∈ (C.machine t).committed.writes, ∃ d i k, C.Reaches d i k w.column t ∧ w = C.written t i k w.column
  /-- A row that reaches a column is its only write, and stands in its cell afterwards. -/
  reaches : ∀ d i k c, C.Reaches d i k c t →
    (C.machine t).committed.writes.filter (·.column == c) = [C.written t i k c] ∧
      (C.machine t).ticked.memories.acc.read c (i.memAddr + UInt64.ofNat k) = (C.written t i k c).value
  frame : ∀ c b, (C.machine t).ticked.memories.acc.elem c b ≠ (C.machine t).memories.acc.elem c b →
    ∃ d i k, C.Reaches d i k c t ∧ b = (i.memAddr + UInt64.ofNat k).toNat % C.chip.accRows
  /-- A multiplication with rows is reported as done, once. -/
  done : (C.machine t).step.2.multiplied = true ↔ ∃ d i, C.Finishes d i t
  /-- Each is done before the next one is dispatched. -/
  in_order : ∀ d i e j, C.issued d = some i → i.opcode = .multiply → C.issued e = some j → j.opcode = .multiply →
    d < e → e ≤ t → d + 2 * C.chip.size + i.length.toNat < e
  /-- When it is done, all its rows have been written into all columns. -/
  complete : ∀ d i, C.Finishes d i t → ∀ k < i.length.toNat, ∀ c < C.chip.size, ∃ u ≤ t, C.Reaches d i k c u ∧
    (C.machine u).committed.writes.filter (·.column == c) = [C.written u i k c]

variable {C}

/-! ## What the columns act on -/

section Unbroken

variable {t : Nat} (h : C.Unbroken (t + 1)) (hfit : C.FitBefore .matrix t)
include h hfit

theorem arriving_of_reaches {d k c : Nat} {i : Instruction} (hr : C.Reaches d i k c t) :
    C.arriving c t = some (i.rowControl k) := by
  obtain ⟨hd, hop, hk, hc, hcycle⟩ := hr
  have hspan := (hfit d (by omega) i hd (by rw [hop]; rfl)).matrix hop
  rw [(h.mono (by omega)).issued_eq] at hd
  have hrow := row?_of_issue ((issue_of_dispatched hd).trans (command?_multiply hop)) hspan hk
  rw [arriving_eq hc, show t = d + 1 + k + (C.chip.size + 1 + c) by omega, delayed_add, hrow]
  rfl

theorem reaches_of_arriving {c : Nat} (hc : c < C.chip.size) {control : AccControl} (hr : C.arriving c t = some control) :
    ∃ d i k, C.Reaches d i k c t ∧ control = i.rowControl k := by
  have hle : C.chip.size + 1 + c ≤ t := by
    by_contra hlt
    rw [arriving_eq hc, delayed_of_lt (by omega)] at hr
    cases hr
  have hrow : C.row? (t - (C.chip.size + 1 + c)) ≠ none := by
    intro hnone
    rw [arriving_eq hc, delayed_of_le hle, hnone] at hr
    cases hr
  obtain ⟨e, m, k, hissue, hpushed, hk⟩ := exists_issue_of_row? hrow
  obtain ⟨d, i, rfl, hd, hcommand⟩ := exists_dispatched hissue
  obtain ⟨hop, rfl⟩ := Sequencer.of_command? hcommand
  rw [← (h.mono (by omega)).issued_eq] at hd
  have hreach : C.Reaches d i k c t := ⟨hd, hop, hk, hc, by omega⟩
  exact ⟨d, i, k, hreach, Option.some.inj (hr.symm.trans (arriving_of_reaches h hfit hreach))⟩

end Unbroken

/-! ## What a cycle writes -/

theorem committed_free (t : Nat) : (C.free t).committed =
    ((C.free t).pipeline.chain.step C.chip.accWidth (C.control t) (C.array.output t).sums (C.memories t).acc).2 := by
  have hcommit : (C.free t).committed = ((C.free t).pipeline.chain.step (C.free t).chip.accWidth
      ((C.free t).pipeline.skew.step (C.row? t)).2.control
      ((C.free t).pipeline.mesh.step (C.free t).chip ((C.free t).pipeline.skew.step (C.row? t)).2.lanes
        (C.free t).pipeline.queue.front).2.sums (C.memories t).acc).2 := rfl
  rw [hcommit, ← output_array, (skew_mesh_free t).1, chip_free]
  rfl

theorem length_sums (t : Nat) : (C.array.output t).sums.length = C.chip.size := by
  have hsums : (C.array.output t).sums = (List.range C.chip.size).map fun c =>
    ((C.array.mesh t).cell (C.chip.size - 1) c).sum := rfl
  rw [hsums, List.length_map, List.length_range]

theorem getElem?_sums {t c : Nat} (hc : c < C.chip.size) :
    (C.array.output t).sums[c]? = some ((C.free t).product.sums.getD c 0) := by
  have hproduct : (C.free t).product = C.array.output t := (output_array t).symm
  have hlt : c < (C.array.output t).sums.length := by rwa [length_sums]
  rw [hproduct, List.getD_eq_getElem _ _ hlt, List.getElem?_eq_getElem hlt]

section Unbroken

variable {t : Nat} (h : C.Unbroken (t + 1))
include h

theorem acc_ticked : (C.machine t).ticked.memories.acc =
    (C.machine t).memories.acc.apply (C.machine t).committed.writes := by
  rw [(Machine.of_tick_isOk (h t (Nat.lt_succ_self t))).1, Machine.acc_step]

theorem written_eq (i : Instruction) (k c : Nat) : C.written t i k c = ControlChain.write C.chip.accWidth
    (C.memories t).acc c ((C.free t).product.sums.getD c 0) (i.rowControl k) := by
  rw [written, (h.mono (Nat.le_succ t)).machine_eq]
  rfl

variable (hfit : C.FitBefore .matrix t)
include hfit

/-- **The writes of a cycle** are those of the rows that reach a column in it. -/
theorem mem_committed_iff {w : AccStore.Write} : w ∈ (C.machine t).committed.writes ↔
    ∃ d i k, C.Reaches d i k w.column t ∧ w = C.written t i k w.column := by
  rw [(h.mono (Nat.le_succ t)).machine_eq, committed_free, ControlChain.mem_writes]
  constructor
  · rintro ⟨c, sum, control, hsum, hcontrol, rfl⟩
    have hc : c < C.chip.size := length_sums (C := C) t ▸ (List.getElem?_eq_some_iff.1 hsum).1
    obtain ⟨d, i, k, hr, rfl⟩ := reaches_of_arriving h hfit hc hcontrol
    rw [getElem?_sums hc] at hsum
    refine ⟨d, i, k, hr, ?_⟩
    rw [written_eq h, ← Option.some.inj hsum]
    rfl
  · rintro ⟨d, i, k, hr, hw⟩
    rw [written_eq h] at hw
    exact ⟨w.column, _, _, getElem?_sums hr.column, arriving_of_reaches h hfit hr, hw⟩

theorem mem_of_reaches {d k c : Nat} {i : Instruction} (hr : C.Reaches d i k c t) :
    C.written t i k c ∈ (C.machine t).committed.writes := (mem_committed_iff h hfit).2 ⟨d, i, k, hr, rfl⟩

/-- A column that a row reaches is written once. -/
theorem filter_committed {d k c : Nat} {i : Instruction} (hr : C.Reaches d i k c t) :
    (C.machine t).committed.writes.filter (·.column == c) = [C.written t i k c] :=
  AccStore.filter_column (w := C.written t i k c) (ControlChain.pairwise_writes _ _ _ _ _) (mem_of_reaches h hfit hr)

/-- The cell that a row reaches holds what the row writes, and the rest of the column stays. -/
theorem elem_of_reaches {d k c : Nat} {i : Instruction} (hr : C.Reaches d i k c t) (b : Nat) :
    (C.machine t).ticked.memories.acc.elem c b =
      if b = (C.machine t).memories.acc.slot (i.memAddr + UInt64.ofNat k) then (C.written t i k c).value
      else (C.machine t).memories.acc.elem c b := by
  have hfits : (C.machine t).memories.acc.Fits C.chip.size := by
    rw [(h.mono (Nat.le_succ t)).machine_eq]
    exact (fits_free t).acc
  rw [acc_ticked h]
  exact AccStore.elem_apply_of_mem (w := C.written t i k c) hfits (ControlChain.pairwise_writes _ _ _ _ _)
    (mem_of_reaches h hfit hr) hr.column b

/-- A column that no row reaches stays as it is. -/
theorem elem_of_unreached {c : Nat} (hno : ∀ d i k, ¬ C.Reaches d i k c t) (b : Nat) :
    (C.machine t).ticked.memories.acc.elem c b = (C.machine t).memories.acc.elem c b := by
  rw [acc_ticked h]
  refine AccStore.elem_apply_of_ne (fun w hw hc => ?_) b
  obtain ⟨d, i, k, hr, -⟩ := (mem_committed_iff h hfit).1 hw
  exact hno d i k (hc ▸ hr)

/-! ## Multiplications that are done -/

/-- **A multiplication is done** with the write of its last row into the last column, and only then. -/
theorem done_iff : (C.machine t).step.2.multiplied = true ↔ ∃ d i, C.Finishes d i t := by
  have hN : 0 < C.chip.size := size_pos
  have hdone : (C.machine t).step.2.multiplied = (C.arriving (C.chip.size - 1) t).any (·.last) := by
    rw [Machine.multiplied_step, (h.mono (Nat.le_succ t)).machine_eq, committed_free, ControlChain.step, length_sums]
    simp [hN, arriving]
  rw [hdone, Option.any_eq_true]
  constructor
  · rintro ⟨control, hcontrol, hlast⟩
    obtain ⟨d, i, k, hr, rfl⟩ := reaches_of_arriving h hfit (by omega) hcontrol
    have hk : k + 1 = i.length.toNat := of_decide_eq_true hlast
    have hcycle := hr.cycle
    exact ⟨d, i, hr.issued, hr.opcode, by omega, by omega⟩
  · rintro ⟨d, i, hd, hop, hlen, hcycle⟩
    have hr : C.Reaches d i (i.length.toNat - 1) (C.chip.size - 1) t := ⟨hd, hop, by omega, by omega, by omega⟩
    exact ⟨_, arriving_of_reaches h hfit hr, decide_eq_true (by omega)⟩

/-- A multiplication is done before the next one is dispatched. -/
theorem finished_before {d e : Nat} {i j : Instruction} (hd : C.issued d = some i) (hi : i.opcode = .multiply)
    (he : C.issued e = some j) (hj : j.opcode = .multiply) (hde : d < e) (het : e ≤ t) :
    d + 2 * C.chip.size + i.length.toNat < e := by
  have hspan := (hfit d (by omega) i hd (by rw [hi]; rfl)).matrix hi
  rw [(h.mono (by omega)).issued_eq] at hd he
  have hset : ∀ {u : Nat} {i : Instruction}, C.dispatched u = some i → i.opcode = .multiply →
      (C.issue (u + 1)).bind (Sequencer.matrixSet C.chip) = some (C.chip.matrixSpan i.length) := by
    intro u i hu hop
    rw [issue_of_dispatched hu, command?_multiply hop]
    rfl
  have hspaced := (countdown (Sequencer.counts_matrix C.chip)).spaced (hset hd hi) hspan (hset he hj)
    (Nat.succ_lt_succ hde)
  unfold Chip.matrixSpan at hspaced
  omega

end Unbroken

/-! ## The account -/

/-- **The account of the accumulators**, for every cycle of a course from power-on, under every hazard policy and until a
tick fails, if the span of every multiplication dispatched until then fits its counter. -/
theorem accumulator_account (hdepth : C.start.acc.depth = C.chip.accRows) {t : Nat} (h : C.Unbroken (t + 1))
    (hfit : C.FitBefore .matrix t) : C.AccAccount t := by
  have hslot : ∀ addr, (C.machine t).memories.acc.slot addr = addr.toNat % C.chip.accRows := by
    intro addr
    rw [(h.mono (Nat.le_succ t)).machine_eq, ← hdepth, ← depth_acc t]
    rfl
  have hdepth' : (C.machine t).ticked.memories.acc.depth = (C.machine t).memories.acc.depth := by
    rw [acc_ticked h, AccStore.depth_apply]
  refine
    { acc := acc_ticked h
      of_committed := fun w hw => (mem_committed_iff h hfit).1 hw
      reaches := fun d i k c hr => ⟨filter_committed h hfit hr, ?_⟩
      frame := fun c b hchange => ?_
      done := done_iff h hfit
      in_order := fun d i e j hd hi he hj => finished_before h hfit hd hi he hj
      complete := fun d i hf k hk c hc => ?_ }
  · rw [AccStore.read_eq_elem, AccStore.slot, hdepth', ← AccStore.slot, elem_of_reaches h hfit hr, if_pos rfl]
  · by_contra hno
    apply hchange
    by_cases hreached : ∃ d i k, C.Reaches d i k c t
    · obtain ⟨d, i, k, hr⟩ := hreached
      rw [elem_of_reaches h hfit hr, if_neg]
      rw [hslot]
      exact fun hb => hno ⟨d, i, k, hr, hb⟩
    · exact elem_of_unreached h hfit (fun d i k hr => hreached ⟨d, i, k, hr⟩) b
  · have hcycle := hf.cycle
    have hr : C.Reaches d i k c (d + 2 + C.chip.size + k + c) := ⟨hf.issued, hf.opcode, hk, hc, rfl⟩
    exact ⟨_, by omega, hr, filter_committed (h.mono (by omega)) (hfit.mono (by omega)) hr⟩

theorem accumulator_account_prefetch :
    prefetch.start.acc.depth = prefetch.chip.accRows ∧ prefetch.Unbroken 23 ∧ prefetch.FitBefore .matrix 22 ∧
      prefetch.Reaches 12 (Instruction.multiply 0 0 2).withSwitch 1 3 22 ∧
      (prefetch.machine 22).committed.writes.filter (·.column == 3) = [⟨3, 1, 320⟩] ∧
      (prefetch.machine 22).ticked.memories.acc.read 3 1 = 320 ∧
      (prefetch.machine 22).step.2.multiplied = true := by
  have hdepth : prefetch.start.acc.depth = prefetch.chip.accRows := rfl
  have h : prefetch.Unbroken 23 := by
    unfold Unbroken
    decide +kernel
  have hfit : prefetch.FitBefore .matrix 22 := by decide +kernel
  have hd : prefetch.issued 12 = some (Instruction.multiply 0 0 2).withSwitch := by decide +kernel
  have hr : prefetch.Reaches 12 (Instruction.multiply 0 0 2).withSwitch 1 3 22 :=
    ⟨hd, rfl, by decide, by decide, rfl⟩
  have hw : prefetch.written 22 (Instruction.multiply 0 0 2).withSwitch 1 3 = ⟨3, 1, 320⟩ := by decide +kernel
  have haddr : (Instruction.multiply 0 0 2).withSwitch.memAddr + UInt64.ofNat 1 = 1 := rfl
  have haccount := accumulator_account hdepth h hfit
  obtain ⟨hwrites, hread⟩ := haccount.reaches _ _ _ _ hr
  rw [hw] at hwrites hread
  rw [haddr] at hread
  exact ⟨hdepth, h, hfit, hr, hwrites, hread, haccount.done.2 ⟨12, _, hd, rfl, by decide, rfl⟩⟩

/-- A multiplication whose span does not fit is replaced by the next one, and its second row is never written. -/
theorem not_accumulator_account : ¬ ∀ (C : Course), C.start.acc.depth = C.chip.accRows → ∀ t, C.Unbroken (t + 1) →
    C.AccAccount t := by
  intro h
  have hquiet : overrun.Unbroken 19 := by
    unfold Unbroken
    decide +kernel
  have hd : overrun.issued 11 = some (Instruction.multiply 0 0 18446744073709551606).withSwitch := by decide +kernel
  have hreach : overrun.Reaches 11 (Instruction.multiply 0 0 18446744073709551606).withSwitch 1 0 18 :=
    ⟨hd, rfl, by decide, by decide, rfl⟩
  have hwrites := ((h overrun rfl 18 hquiet).reaches _ _ _ _ hreach).1
  exact absurd (congrArg (List.map (·.addr)) hwrites) (by decide +kernel)

end Course

end Systolic
