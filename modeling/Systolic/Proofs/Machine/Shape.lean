import Systolic.Proofs.Course.RowWrites
import Systolic.Proofs.Machine.Operation

/-!
# The shape of reachable machines

Every row of registers has its length, every tile and every memory its size, and the running programming step, the next
burst and the fill of slot 1 stay below their bounds (`Machine.Formed`). A cycle keeps this, whatever hazards it shows
(`Machine.Formed.step`), and so do resets and writes from outside (`Machine.Reachable.formed`).
-/

namespace Systolic

/-! ## The tiles of the queue -/

namespace TileQueue

variable {size : Nat} {q : TileQueue} {burst? : Option Row} {advance : Bool} {t : Tile}

/-- The tiles in slots 2 to 4. -/
def tiles (q : TileQueue) : List Tile := q.second.toList ++ q.third.toList ++ q.front.toList

theorem mem_tiles : t ∈ q.tiles ↔ q.second = some t ∨ q.third = some t ∨ q.front = some t := by
  simp [tiles]

theorem of_ripple {behind own : Option Tile} {leaves : Bool} (h : ripple behind own leaves = some t) :
    behind = some t ∨ own = some t := by
  cases own with
  | none => exact Or.inl h
  | some u =>
    cases leaves with
    | false => exact Or.inr h
    | true => cases h

theorem of_first (h : q.first size = some t) : t = .ofRow size q.fill := by
  unfold first at h
  split at h
  · exact (Option.some.inj h).symm
  · cases h

/-- A tile in the slots stood there before, or has just left slot 1. -/
theorem mem_tiles_step (h : t ∈ (q.step size burst? advance).1.tiles) : t ∈ q.tiles ∨ t = .ofRow size q.fill := by
  rw [mem_tiles] at h ⊢
  rcases h with h | h | h
  · rcases of_ripple h with h | h
    · exact Or.inr (of_first h)
    · exact Or.inl (Or.inl h)
  · rcases of_ripple h with h | h
    · exact Or.inl (Or.inl h)
    · exact Or.inl (Or.inr (Or.inl h))
  · rcases of_ripple h with h | h
    · exact Or.inl (Or.inr (Or.inl h))
    · exact Or.inl (Or.inr (Or.inr h))

/-- Slot 1 after a cycle: what it held, or zeros once its tile has left, with what has arrived behind it. -/
theorem fill_step (size : Nat) (q : TileQueue) (burst? : Option Row) (advance : Bool) :
    ∃ fill filled burst, (q.step size burst? advance).1.fill = append size fill filled burst ∧
    (q.step size burst? advance).1.filled = min (filled + burst.length) (size * size) ∧
    (fill = q.fill ∧ filled = q.filled ∨ fill = List.replicate (size * size) 0 ∧ filled = 0) ∧
    (burst = [] ∨ burst? = some burst) := by
  refine ⟨_, _, _, rfl, rfl, ?_, ?_⟩
  · cases q.drains size with
    | false => exact Or.inl ⟨rfl, rfl⟩
    | true => exact Or.inr ⟨rfl, rfl⟩
  · cases burst? with
    | none => left; simp
    | some b =>
      split
      · exact Or.inl rfl
      · exact Or.inr rfl

theorem length_fill_step (hfill : q.fill.length = size * size) (hfilled : q.filled ≤ size * size) :
    (q.step size burst? advance).1.fill.length = size * size := by
  obtain ⟨fill, filled, burst, heq, -, hold, -⟩ := fill_step size q burst? advance
  rw [heq]
  rcases hold with ⟨rfl, rfl⟩ | ⟨rfl, rfl⟩
  · exact Supply.length_append hfill hfilled burst
  · exact Supply.length_append List.length_replicate (Nat.zero_le _) burst

theorem filled_step_le : (q.step size burst? advance).1.filled ≤ size * size := Nat.min_le_right _ _

end TileQueue

/-! ## The registers -/

namespace Pipeline

variable {chip : Chip} {p : Pipeline}

/-- Every row of registers has its length, and every count stays below its bound. -/
structure Sized (chip : Chip) (p : Pipeline) : Prop extends p.Shaped chip where
  laneCount : p.skew.lanes.length = chip.size
  topCount : p.mesh.top.length = chip.size
  top : ∀ c (line : DelayLine Feed), p.mesh.top[c]? = some line → line.length = c
  programming : ∀ k, p.mesh.programming = some k → k < chip.size
  fill : p.queue.fill.length = chip.size * chip.size
  filled : p.queue.filled ≤ chip.size * chip.size
  tiles : ∀ t ∈ p.queue.tiles, t.size = chip.size ∧ t.cells.length = chip.size * chip.size
  job : ∀ j, p.reader.job = some j → j.next < chip.burstsPerTile

theorem sized_idle (chip : Chip) : (idle chip).Sized chip := by
  constructor
  · exact shaped_idle chip
  · simp [idle, SkewLines.idle]
  · simp [idle, Mesh.idle]
  · intro c line hline
    simp only [idle, Mesh.idle, List.getElem?_map, Option.map_eq_some_iff] at hline
    obtain ⟨i, hi, rfl⟩ := hline
    obtain ⟨-, rfl⟩ := List.getElem?_eq_some_iff.1 hi
    simp
  · intro k hk
    cases hk
  · simp [idle, TileQueue.empty]
  · exact Nat.zero_le _
  · intro t ht
    cases ht
  · intro j hj
    cases hj

theorem Sized.clear (h : p.Sized chip) : p.clear.Sized chip := by
  constructor
  · exact h.toShaped.clear
  · simpa [Pipeline.clear, SkewLines.clear] using h.laneCount
  · simpa [Pipeline.clear, Mesh.clear] using h.topCount
  · intro c line hline
    simp only [Pipeline.clear, Mesh.clear, List.getElem?_map, Option.map_eq_some_iff] at hline
    obtain ⟨line, hline, rfl⟩ := hline
    rw [DelayLine.length_clear]
    exact h.top c line hline
  · intro k hk
    cases hk
  · simpa [Pipeline.clear, TileQueue.clear] using h.fill
  · exact Nat.zero_le _
  · intro t ht
    cases ht
  · intro j hj
    cases hj

end Pipeline

theorem Chip.Valid.size_pos {chip : Chip} (h : chip.Valid) : 0 < chip.size := by
  have := h.size
  omega

theorem Chip.Valid.burstsPerTile_pos {chip : Chip} (h : chip.Valid) : 0 < chip.burstsPerTile := by
  rw [Supply.lt_burstsPerTile_iff h.burstElems_pos, Nat.zero_mul]
  exact Nat.mul_pos h.size_pos h.size_pos

/-- The programming step stays within the window. -/
theorem Mesh.programming_lt {mesh : Mesh} {size : Nat} {lanes : List Lane} {front? : Option Tile} (hsize : 0 < size)
    (h : ∀ k, mesh.programming = some k → k < size) {k : Nat}
    (hk : (mesh.nextProgramming size lanes front?).1 = some k) : k < size := by
  unfold nextProgramming at hk
  cases hp : mesh.programming with
  | some i =>
    have hi := h i hp
    simp only [hp] at hk
    split at hk
    · cases hk
    · obtain rfl := Option.some.inj hk
      omega
  | none =>
    simp only [hp] at hk
    split at hk
    · obtain rfl := Option.some.inj hk
      exact hsize
    · cases hk

/-- The next burst is one of the tile's. -/
theorem TileReader.next_lt {chip : Chip} {r : TileReader} {request : Option UInt64} {store : TileStore}
    (hpos : 0 < chip.burstsPerTile) (h : ∀ j, r.job = some j → j.next < chip.burstsPerTile) {j : Job}
    (hj : (r.step chip request store).1.job = some j) : j.next < chip.burstsPerTile := by
  cases request with
  | some tile =>
    obtain rfl := Option.some.inj hj
    exact hpos
  | none =>
    replace hj : ((r.job.map (Job.step chip store)).getD (none, none)).1 = some j := hj
    cases hjob : r.job with
    | none => rw [hjob] at hj; cases hj
    | some i =>
      have hi := h i hjob
      rw [hjob, Option.map_some, Option.getD_some, Job.step] at hj
      split at hj
      · obtain rfl := Option.some.inj hj
        exact hi
      · dsimp only at hj
        split at hj
        · obtain rfl := Option.some.inj hj
          assumption
        · cases hj

/-! ## The whole machine -/

theorem RowStore.fits_blank (depth width : Nat) : (blank depth width).Fits depth width := by
  constructor
  · simp [blank, RowStore.depth]
  · rfl
  · intro row hrow
    rw [Array.eq_of_mem_replicate hrow, List.length_replicate]

namespace Machine

variable {chip : Chip} {program : Program} {m : Machine}

/-- A machine with sound parameters in which everything has its size. -/
structure Formed (chip : Chip) (program : Program) (m : Machine) : Prop where
  valid : chip.Valid
  chip_eq : m.chip = chip
  program_eq : m.program = program
  memories : m.memories.Fits chip
  stores : m.memories.stores.Fits chip
  pipeline : m.pipeline.Sized chip

theorem formed_powerOn (h : chip.Valid) (program : Program) : (powerOn chip program).Formed chip program := by
  constructor
  · exact h
  · rfl
  · rfl
  · exact Memories.fits_blank h
  · constructor
    · exact RowStore.fits_blank chip.padRows chip.size
    · exact RowStore.fits_blank chip.hostRows chip.size
  · exact Pipeline.sized_idle chip

theorem sized_step (hsize : 0 < m.chip.size) (hbursts : 0 < m.chip.burstsPerTile) (h : m.pipeline.Sized m.chip) :
    m.step.1.pipeline.Sized m.chip := by
  constructor
  · exact shaped_step h.toShaped
  · simpa [skew_step, SkewLines.step] using h.laneCount
  · simpa [mesh_step, Mesh.step] using h.topCount
  · intro c line hline
    rw [mesh_step, Mesh.step, List.getElem?_mapIdx] at hline
    obtain ⟨old, hold, rfl⟩ := Option.map_eq_some_iff.1 hline
    rw [DelayLine.length_shift]
    exact h.top c old hold
  · intro k hk
    exact Mesh.programming_lt hsize h.programming hk
  · exact TileQueue.length_fill_step h.fill h.filled
  · exact TileQueue.filled_step_le
  · intro t ht
    rcases TileQueue.mem_tiles_step ht with ht | rfl
    · exact h.tiles t ht
    · exact ⟨rfl, Tile.length_cells_ofRow _ _⟩
  · intro j hj
    exact TileReader.next_lt hbursts h.job hj

/-- A cycle keeps the shape. -/
theorem Formed.step (h : m.Formed chip program) : m.step.1.Formed chip program := by
  obtain ⟨hvalid, rfl, rfl, hmem, hstores, hpipe⟩ := h
  constructor
  · exact hvalid
  · rfl
  · rfl
  · exact ⟨hmem.acc.apply _, hmem.weights⟩
  · exact ⟨(hstores.pad.commit _).commit _, hstores.host.commit _⟩
  · exact sized_step hvalid.size_pos hvalid.burstsPerTile_pos hpipe

theorem Formed.ticked (h : m.Formed chip program) : m.ticked.Formed chip program := by
  rcases m.ticked_eq with ⟨hm, -⟩ | ⟨hm, -⟩ <;> rw [hm]
  · exact h.step
  · exact h

theorem Formed.reset (h : m.Formed chip program) : m.reset.Formed chip program :=
  ⟨h.valid, h.chip_eq, h.program_eq, h.memories, h.stores, h.pipeline.clear⟩

theorem Formed.poke (h : m.Formed chip program) (p : Poke) : (m.poke p).Formed chip program := by
  obtain ⟨hvalid, rfl, rfl, hmem, hstores, hpipe⟩ := h
  constructor
  · exact hvalid
  · exact m.chip_poke p
  · exact m.program_pokeAll [p]
  · exact m.chip_poke p ▸ fits_pokeAll hmem [p]
  · exact stores_pokeAll hstores [p]
  · rw [pipeline_poke]
    exact hpipe

/-- **The shape of reachable machines.** -/
theorem Reachable.formed (h : Reachable chip program m) : m.Formed chip program := by
  induction h with
  | build h =>
    obtain ⟨hvalid, rfl⟩ := of_build h
    exact formed_powerOn hvalid program
  | tick _ ih => exact ih.ticked
  | reset _ ih => exact ih.reset
  | poke _ p ih => exact ih.poke p

/-- What holds at power-on and what cycles, resets and writes from outside keep in machines of this shape holds of every
reachable machine. -/
theorem Reachable.invariant {P : Machine → Prop} (h : Reachable chip program m) (hpower : P (powerOn chip program))
    (hstep : ∀ m : Machine, m.Formed chip program → P m → P m.step.1)
    (hreset : ∀ m : Machine, m.Formed chip program → P m → P m.reset)
    (hpoke : ∀ (m : Machine) (p : Poke), m.Formed chip program → P m → P (m.poke p)) : P m := by
  induction h with
  | build h =>
    obtain ⟨-, rfl⟩ := of_build h
    exact hpower
  | @tick m hm ih =>
    rcases m.ticked_eq with ⟨heq, -⟩ | ⟨heq, -⟩
    · rw [heq]
      exact hstep m hm.formed ih
    · rw [heq]
      exact ih
  | reset hm ih => exact hreset _ hm.formed ih
  | poke hm p ih => exact hpoke _ p hm.formed ih

end Machine

end Systolic
