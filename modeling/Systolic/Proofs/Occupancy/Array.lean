import Systolic.Proofs.Course.Commit
import Systolic.Proofs.Machine.Step
import Systolic.Proofs.Occupancy.Units

/-!
# Rows on their way to the accumulators

A row that the row source pushes needs `2 N + 2` more cycles: through the skew lines, across the array and along the
control chain. `ArrayWithin` says that every row and every control under way, wherever it stands, ends within `n` cycles.
A cycle takes one off (`Machine.arrayWithin_step`), and with none left the whole way is clear (`ArrayWithin.idle`).

Where something stands is counted in registers. `InTime` is the statement for registers in series, `InTime.shift` its
cycle.
-/

namespace Systolic

/-! ## Registers in series -/

/-- What counts in a register ends within `n` cycles, if it needs `need` cycles from register 0 on. -/
def InTime {α : Type} (counts : α → Bool) (need : Nat) (regs : List α) (n : Nat) : Prop :=
  ∀ i a, regs[i]? = some a → counts a = true → need ≤ n + i

namespace InTime

variable {α : Type} {counts : α → Bool} {need n : Nat} {regs : List α}

theorem mono {m : Nat} (hmn : m ≤ n) (h : InTime counts need regs m) : InTime counts need regs n := by
  intro i a hi ha
  have := h i a hi ha
  omega

/-- One cycle moves everything on by a register. -/
theorem shift (h : InTime counts need regs n) {input : α} (hin : counts input = true → need + 1 ≤ n) :
    InTime counts need (input :: regs).dropLast (n - 1) := by
  intro i a hi ha
  rw [List.getElem?_dropLast] at hi
  split at hi
  · cases i with
    | zero =>
      obtain rfl : input = a := by simpa using hi
      have := hin ha
      omega
    | succ i =>
      rw [List.getElem?_cons_succ] at hi
      have := h i a hi ha
      omega
  · cases hi

/-- What leaves a line of `k + 1` registers has spent `k` cycles after register 0. -/
theorem output {line : DelayLine α} (h : InTime counts need line.regs n) {k : Nat} (hk : line.length = k + 1) {input : α}
    (ha : counts (line.output input) = true) : need ≤ n + k := by
  have hlast : line.regs[k]? = some (line.output input) := by
    rw [DelayLine.length] at hk
    rw [DelayLine.output, List.getLast?_eq_getElem?, hk, Nat.add_sub_cancel, List.getElem?_eq_getElem (by omega)]
    rfl
  exact h k _ hlast ha

/-- With no time left, nothing counts in as few registers as there are cycles to go. -/
theorem eq_false (h : InTime counts need regs 0) (hlen : regs.length ≤ need) : ∀ a ∈ regs, counts a = false := by
  intro a ha
  obtain ⟨i, hi⟩ := List.mem_iff_getElem?.1 ha
  have hlt := (List.getElem?_eq_some_iff.1 hi).1
  rw [← Bool.not_eq_true]
  intro hc
  have := h i a hi hc
  omega

/-- Registers in which nothing counts are in time. -/
theorem of_false (h : ∀ a ∈ regs, counts a = false) : InTime counts need regs n := by
  intro i a hi ha
  rw [h a (List.mem_of_getElem? hi)] at ha
  cases ha

end InTime

/-! ## The row source -/

namespace RowSource

theorem Job.toNat_left {j k : Job} (h : j.left? = some k) : k.remaining.toNat + 1 = j.remaining.toNat := by
  unfold left? at h
  split at h
  · cases h
  · unfold next? at h
    split at h
    · obtain rfl := Option.some.inj h
      exact toNat_sub_one ‹1 < j.remaining›
    · cases h

end RowSource

/-- An element that a cell has seen came from the cell on its left, or from its lane. -/
theorem Mesh.left_step {mesh : Mesh} {chip : Chip} {lanes : List Lane} {front? : Option Tile} {r c : Nat}
    (hv : ((mesh.step chip lanes front?).1.cell r c).left.valid = true) : r < chip.size ∧ c < chip.size ∧
      ((mesh.step chip lanes front?).1.cell r c).left =
        if c = 0 then lanes.getD r {} else (mesh.cell r (c - 1)).left := by
  simp only [Mesh.step, cell, nextCells, List.getD_eq_getElem?_getD, List.getElem?_map] at hv ⊢
  by_cases hr : r < chip.size
  · by_cases hc : c < chip.size
    · refine ⟨hr, hc, ?_⟩
      simp only [List.getElem?_range hr, List.getElem?_range hc, Option.map_some, Option.getD_some,
        List.getElem?_map]
      rfl
    · simp [hr, hc] at hv
  · simp [hr] at hv

/-! ## The whole way -/

namespace Pipeline

/-- The number of registers everywhere on the way. -/
structure Shaped (chip : Chip) (p : Pipeline) : Prop where
  lanes : ∀ r line, p.skew.lanes[r]? = some line → r < chip.size ∧ line.length = r + 1
  control : p.skew.control.length = chip.size + 1
  rows : p.mesh.cells.length = chip.size
  columns : ∀ row ∈ p.mesh.cells, row.length = chip.size
  hops : p.chain.hops.length = chip.size - 1

/-- Every row and every control under way ends within `n` cycles. -/
structure ArrayWithin (chip : Chip) (p : Pipeline) (n : Nat) : Prop where
  job : ∀ j, p.source.job = some j → j.remaining.toNat + (2 * chip.size + drainCycles) ≤ n
  lanes : ∀ line ∈ p.skew.lanes, InTime (·.valid) (2 * chip.size + drainCycles) line.regs n
  control : InTime (·.valid) (2 * chip.size + drainCycles) p.skew.control.regs n
  cells : ∀ r c, (p.mesh.cell r c).left.valid = true → 2 * chip.size + 1 ≤ n + r + c
  hops : InTime (·.valid) (chip.size + 1) p.chain.hops n

/-- No job, and no row and no control that counts, anywhere on the way. -/
structure ArrayIdle (p : Pipeline) : Prop where
  job : p.source.job = none
  lanes : ∀ line ∈ p.skew.lanes, ∀ lane ∈ line.regs, lane.valid = false
  control : ∀ w ∈ p.skew.control.regs, w.valid = false
  cells : ∀ row ∈ p.mesh.cells, ∀ cell ∈ row, cell.left.valid = false
  hops : ∀ w ∈ p.chain.hops, w.valid = false

variable {chip : Chip} {p : Pipeline}

theorem ArrayWithin.mono {m n : Nat} (hmn : m ≤ n) (h : p.ArrayWithin chip m) : p.ArrayWithin chip n :=
  ⟨fun j hj => (h.job j hj).trans hmn, fun line hl => (h.lanes line hl).mono hmn, h.control.mono hmn,
    fun r c hv => by have := h.cells r c hv; omega, h.hops.mono hmn⟩

/-- With no time left the way is clear. -/
theorem ArrayWithin.idle (h : p.ArrayWithin chip 0) (hs : p.Shaped chip) : p.ArrayIdle := by
  refine ⟨?_, fun line hl => ?_, ?_, fun row hrow cell hcell => ?_, ?_⟩
  · refine Option.eq_none_iff_forall_ne_some.2 fun j hj => ?_
    have := h.job j hj
    simp only [drainCycles] at this
    omega
  · obtain ⟨r, hr⟩ := List.mem_iff_getElem?.1 hl
    obtain ⟨hlt, hlen⟩ := hs.lanes r line hr
    refine (h.lanes line hl).eq_false ?_
    rw [DelayLine.length] at hlen
    simp only [drainCycles]
    omega
  · have hlen := hs.control
    refine h.control.eq_false ?_
    rw [DelayLine.length] at hlen
    simp only [drainCycles]
    omega
  · obtain ⟨r, hr⟩ := List.mem_iff_getElem?.1 hrow
    obtain ⟨c, hc⟩ := List.mem_iff_getElem?.1 hcell
    have hrlt := (List.getElem?_eq_some_iff.1 hr).1
    have hclt := (List.getElem?_eq_some_iff.1 hc).1
    rw [hs.rows] at hrlt
    rw [hs.columns row hrow] at hclt
    have hcellEq : p.mesh.cell r c = cell := by
      simp only [Mesh.cell, List.getD_eq_getElem?_getD, hr, Option.getD_some, hc]
    rw [← Bool.not_eq_true, ← hcellEq]
    intro hv
    have := h.cells r c hv
    omega
  · have hlen := hs.hops
    exact h.hops.eq_false (by omega)

/-- A clear way needs no time. -/
theorem ArrayIdle.within (h : p.ArrayIdle) (n : Nat) : p.ArrayWithin chip n := by
  refine ⟨fun j hj => ?_, fun line hl => InTime.of_false (h.lanes line hl), InTime.of_false h.control,
    fun r c hv => ?_, InTime.of_false h.hops⟩
  · rw [h.job] at hj
    cases hj
  · rw [Mesh.cell, List.getD_eq_getElem?_getD, List.getD_eq_getElem?_getD] at hv
    cases hr : p.mesh.cells[r]? with
    | none => simp [hr] at hv
    | some row =>
      cases hc : row[c]? with
      | none => simp [hr, hc] at hv
      | some cell =>
        simp [hr, hc, h.cells row (List.mem_of_getElem? hr) cell (List.mem_of_getElem? hc)] at hv

/-! ## One cycle -/

theorem shaped_idle (chip : Chip) : (idle chip).Shaped chip := by
  refine ⟨?_, by simp [idle, SkewLines.idle], by simp [idle, Mesh.idle], ?_, by simp [idle, ControlChain.idle]⟩
  · intro r line hr
    simp only [idle, SkewLines.idle, List.getElem?_map, Option.map_eq_some_iff] at hr
    obtain ⟨i, hi, rfl⟩ := hr
    obtain ⟨hlt, rfl⟩ := List.getElem?_eq_some_iff.1 hi
    rw [List.length_range] at hlt
    simpa using hlt
  · intro row hrow
    rw [List.eq_of_mem_replicate hrow, List.length_replicate]

theorem arrayIdle_idle (chip : Chip) : (idle chip).ArrayIdle := by
  refine ⟨rfl, ?_, ?_, ?_, ?_⟩
  · intro line hline lane hlane
    obtain ⟨r, -, rfl⟩ := List.mem_map.1 hline
    rw [List.eq_of_mem_replicate hlane]
    rfl
  · intro w hw
    rw [List.eq_of_mem_replicate hw]
    rfl
  · intro row hrow cell hcell
    rw [List.eq_of_mem_replicate hrow] at hcell
    rw [List.eq_of_mem_replicate hcell]
  · intro w hw
    rw [List.eq_of_mem_replicate hw]
    rfl

theorem Shaped.clear (h : p.Shaped chip) : p.clear.Shaped chip := by
  refine ⟨?_, ?_, ?_, ?_, ?_⟩
  · intro r line hr
    simp only [Pipeline.clear, SkewLines.clear, List.getElem?_map, Option.map_eq_some_iff] at hr
    obtain ⟨line, hline, rfl⟩ := hr
    rw [DelayLine.length_clear]
    exact h.lanes r line hline
  · exact (DelayLine.length_clear _).trans h.control
  · simpa [Pipeline.clear, Mesh.clear] using h.rows
  · intro row hrow
    obtain ⟨row, hmem, rfl⟩ := List.mem_map.1 hrow
    rw [List.length_map]
    exact h.columns row hmem
  · simpa [Pipeline.clear, ControlChain.clear] using h.hops

theorem arrayIdle_clear (p : Pipeline) : p.clear.ArrayIdle := by
  refine ⟨rfl, ?_, ?_, ?_, ?_⟩
  · intro line hline lane hlane
    obtain ⟨line, -, rfl⟩ := List.mem_map.1 hline
    rw [List.eq_of_mem_replicate hlane]
    rfl
  · intro w hw
    rw [List.eq_of_mem_replicate hw]
    rfl
  · intro row hrow cell hcell
    obtain ⟨row, -, rfl⟩ := List.mem_map.1 hrow
    obtain ⟨cell, -, rfl⟩ := List.mem_map.1 hcell
    rfl
  · intro w hw
    obtain ⟨w, -, rfl⟩ := List.mem_map.1 hw
    rfl

end Pipeline

namespace Machine

open Pipeline Sequencer

variable {m : Machine}

theorem shaped_step (h : m.pipeline.Shaped m.chip) : m.step.1.pipeline.Shaped m.chip := by
  refine ⟨?_, ?_, ?_, ?_, ?_⟩
  · intro r line hr
    rw [skew_step, SkewLines.step, List.getElem?_mapIdx] at hr
    obtain ⟨line, hline, rfl⟩ := Option.map_eq_some_iff.1 hr
    rw [DelayLine.length_shift]
    exact h.lanes r line hline
  · exact (DelayLine.length_shift _ _).trans h.control
  · rw [mesh_step, Mesh.step, Mesh.nextCells, List.length_map, List.length_range]
  · intro row hrow
    rw [mesh_step, Mesh.step, Mesh.nextCells] at hrow
    obtain ⟨r, -, rfl⟩ := List.mem_map.1 hrow
    rw [List.length_map, List.length_range]
  · rw [chain_step, ControlChain.step, List.length_dropLast, List.length_cons, Nat.add_sub_cancel]
    exact h.hops

section Step

variable {n : Nat} (h : Covers (m.pipeline.ArrayWithin m.chip)
  (m.issue.bind (matrixSet m.chip)) n)
include h

/-- The job of a cycle still has to bring all its rows to the accumulators. -/
theorem toNat_rowJob {j : RowSource.Job} (hj : ((m.issue.bind (·.multiplication?)).map
    RowSource.Job.ofCommand).or m.pipeline.source.job = some j) :
    j.remaining.toNat + (2 * m.chip.size + drainCycles) ≤ n := by
  cases hm : m.issue.bind (·.multiplication?) with
  | none =>
    rw [hm] at hj
    exact h.within.job j hj
  | some x =>
    rw [hm] at hj
    obtain rfl := Option.some.inj hj
    obtain ⟨c, hc, hx⟩ := Option.bind_eq_some_iff.1 hm
    have hset : m.issue.bind (matrixSet m.chip) = some (m.chip.matrixSpan x.length) := by
      rw [hc, Option.bind_some, matrixSet, hx]
      rfl
    have hn := (h.fresh _ hset).1
    simp only [RowSource.Job.ofCommand, hn, Chip.matrixSpan]
    omega

/-- A row is pushed with its whole way ahead. -/
theorem le_of_pushed (hrow : m.pushed.isSome = true) : 2 * m.chip.size + drainCycles + 1 ≤ n := by
  rw [pushed, RowSource.row_step] at hrow
  obtain ⟨row, hrow⟩ := Option.isSome_iff_exists.1 hrow
  obtain ⟨j, hj, hrow⟩ := Option.bind_eq_some_iff.1 hrow
  have hle := toNat_rowJob h hj
  have hpos : 0 < j.remaining.toNat := by
    refine toNat_pos_iff.2 fun h0 => ?_
    rw [if_pos h0] at hrow
    cases hrow
  omega

/-- A row crosses one more register, cell or hop in every cycle. -/
theorem arrayWithin_step (hs : m.pipeline.Shaped m.chip) : m.step.1.pipeline.ArrayWithin m.chip (n - 1) := by
  refine ⟨?_, ?_, ?_, ?_, ?_⟩
  · intro k hk
    rw [source_step, RowSource.job_step] at hk
    obtain ⟨j, hj, hleft⟩ := Option.bind_eq_some_iff.1 hk
    have hle := toNat_rowJob h hj
    have hk := RowSource.Job.toNat_left hleft
    omega
  · intro line hline
    rw [skew_step, SkewLines.step] at hline
    obtain ⟨r, hr, rfl⟩ := List.mem_mapIdx.1 hline
    refine (h.within.lanes _ (List.getElem_mem hr)).shift fun hv => le_of_pushed h ?_
    cases hrow : m.pushed with
    | none => simp [hrow, SkewLines.entering] at hv
    | some row => rfl
  · refine h.within.control.shift fun hv => le_of_pushed h ?_
    cases hrow : m.pushed with
    | none =>
      change (Wire.ofOption (m.pushed.map (·.control))).valid = true at hv
      rw [hrow] at hv
      cases hv
    | some row => rfl
  · intro r c hv
    rw [mesh_step] at hv
    obtain ⟨hr, hc, hleft⟩ := Mesh.left_step hv
    rw [hleft] at hv
    split at hv
    · rw [skewed, SkewLines.step, List.getD_eq_getElem?_getD, List.getElem?_mapIdx] at hv
      cases hline : m.pipeline.skew.lanes[r]? with
      | none => simp [hline] at hv
      | some line =>
        rw [hline] at hv
        have hlen := (hs.lanes r line hline).2
        have hle := (h.within.lanes line (List.mem_of_getElem? hline)).output hlen hv
        simp only [drainCycles] at hle
        omega
    · have hle := h.within.cells r (c - 1) hv
      omega
  · refine h.within.hops.shift fun hv => ?_
    have := h.within.control.output hs.control hv
    simp only [drainCycles] at this
    omega

end Step

section Clear

variable (h : m.pipeline.ArrayIdle) (hs : m.pipeline.Shaped m.chip)
include h hs

/-- On a clear way no control reaches the accumulators. -/
theorem at?_of_arrayIdle (c : Nat) : m.pipeline.chain.at? m.skewed.control c = none := by
  rw [ControlChain.at?]
  refine Option.bind_eq_none_iff.2 fun wire hwire => ?_
  have hvalid : wire.valid = false := by
    rcases List.mem_cons.1 (List.mem_of_getElem? hwire) with rfl | hmem
    · rw [← Bool.not_eq_true]
      intro hv
      have hcontrol : InTime (·.valid) (m.chip.size + 1) m.pipeline.skew.control.regs 0 := InTime.of_false h.control
      have := hcontrol.output hs.control hv
      omega
    · exact h.hops wire hmem
  rw [Wire.get?, hvalid]
  rfl

/-- The accumulators stay as they are. -/
theorem acc_of_arrayIdle : m.step.1.memories.acc = m.memories.acc := by
  suffices hw : m.committed.writes = [] by
    rw [acc_step, hw]
    rfl
  refine List.eq_nil_iff_forall_not_mem.2 fun w hw => ?_
  obtain ⟨c, sum, k, -, hk, -⟩ := (ControlChain.mem_writes _ _ _ _ _).1 hw
  rw [at?_of_arrayIdle h hs] at hk
  cases hk

/-- No multiplication ends. -/
theorem multiplied_of_arrayIdle : m.step.2.multiplied = false := by
  rw [multiplied_step, committed, ControlChain.step]
  simp only [at?_of_arrayIdle h hs, Option.any_none, Bool.and_false]

end Clear

end Machine

end Systolic
