import Systolic.Machine.Basic

/-!
# The shape of the memories

The scratchpad, the host memory and the accumulators have a row of `N` elements at every address, and the weight store a
tile of `N × N`. No write changes that (`RowStore.Fits.write`, `AccStore.Fits.apply`, `TileStore.Fits.store`), so every
row and every tile that is read has its full length.
-/

namespace Systolic

/-- `depth` rows of `width` elements. -/
structure RowStore.Fits (m : RowStore) (depth width : Nat) : Prop where
  depth_eq : m.depth = depth
  width_eq : m.width = width
  rows : ∀ row ∈ m.rows, row.length = width

/-- Rows of one element for each of `columns` columns. -/
structure AccStore.Fits (m : AccStore) (columns : Nat) : Prop where
  depth : 0 < m.depth
  rows : ∀ row ∈ m.rows, row.length = columns

/-- Tiles of `size` rows and columns. -/
structure TileStore.Fits (m : TileStore) (size : Nat) : Prop where
  capacity : 0 < m.tiles.size
  tiles : ∀ cells ∈ m.tiles, cells.length = size * size

/-- The accumulators and the weight tiles have the shape of the array. -/
structure Memories.Fits (m : Memories) (chip : Chip) : Prop where
  acc : m.acc.Fits chip.size
  weights : m.weights.Fits chip.size

theorem Memories.fits_blank {chip : Chip} (h : chip.Valid) : (blank chip).Fits chip := by
  have hN : chip.size ≠ 0 := by have := h.size; omega
  refine ⟨⟨?_, ?_⟩, ⟨?_, ?_⟩⟩
  · simp [blank, AccStore.blank, AccStore.depth, hN, h.accRows]
  · simp [blank, AccStore.blank, hN]
  · simp [blank, TileStore.blank, h.tiles]
  · simp [blank, TileStore.blank]

/-- A row of full length stays as it is. -/
theorem Row.fit_length (row : Row) : row.fit row.length = row := by
  rw [fit, Nat.sub_self, List.replicate_zero, List.append_nil, List.take_length]

namespace RowStore

variable {m : RowStore} {depth width : Nat} (h : m.Fits depth width)
include h

theorem Fits.length_read (hd : 0 < depth) (addr : UInt64) : (m.read addr).length = width := by
  have hs : m.slot addr < m.rows.size := slot_lt (h.depth_eq ▸ hd) addr
  rw [read, Array.getD_eq_getD_getElem?, Array.getElem?_eq_getElem hs]
  exact h.rows _ (Array.getElem_mem hs)

theorem Fits.write (addr : UInt64) (row : Row) : (m.write addr row).Fits depth width := by
  refine ⟨(depth_write _ _ _).trans h.depth_eq, h.width_eq, fun r hr => ?_⟩
  rcases Array.mem_or_eq_of_mem_setIfInBounds hr with hr | rfl
  · exact h.rows r hr
  · rw [Row.length_fit, h.width_eq]

theorem Fits.commit (w? : Option RowStore.Write) : (m.commit w?).Fits depth width := by
  cases w? with
  | none => exact h
  | some w => exact h.write _ _

omit h in
/-- A write changes no row but the one at its slot. -/
theorem exists_commit_of_ne {w? : Option RowStore.Write} {b : Nat} (hne : (m.commit w?).rows[b]? ≠ m.rows[b]?) :
    ∃ w, w? = some w ∧ b = m.slot w.addr := by
  cases w? with
  | none => exact absurd rfl hne
  | some w =>
    by_cases hb : b = m.slot w.addr
    · exact ⟨w, rfl, hb⟩
    · exact absurd (Array.getElem?_setIfInBounds_ne (Ne.symm hb)) hne

end RowStore

namespace AccStore

variable {m : AccStore} {columns : Nat} (h : m.Fits columns)
include h

theorem Fits.length_readRow (addr : UInt64) : (m.readRow addr).length = columns := by
  have hs : m.slot addr < m.rows.size := slot_lt h.depth addr
  rw [readRow, Array.getD_eq_getD_getElem?, Array.getElem?_eq_getElem hs]
  exact h.rows _ (Array.getElem_mem hs)

theorem Fits.write (w : AccStore.Write) : (m.write w).Fits columns := by
  refine ⟨by rw [depth_write]; exact h.depth, fun row hrow => ?_⟩
  rcases Array.mem_or_eq_of_mem_setIfInBounds hrow with hr | rfl
  · exact h.rows row hr
  · rw [List.length_set, h.length_readRow]

theorem Fits.apply (ws : List AccStore.Write) : (m.apply ws).Fits columns := by
  induction ws generalizing m with
  | nil => exact h
  | cons w ws ih => exact ih (h.write w)

end AccStore

namespace TileStore

variable {m : TileStore} {size : Nat} (h : m.Fits size)
include h

theorem Fits.length_read (addr : UInt64) : (m.read addr).length = size * size := by
  have hs : m.slot addr < m.tiles.size := Nat.mod_lt _ h.capacity
  rw [read, Array.getD_eq_getD_getElem?, Array.getElem?_eq_getElem hs]
  exact h.tiles _ (Array.getElem_mem hs)

theorem Fits.store (addr : UInt64) (cells : Row) : (m.store addr cells).Fits size := by
  refine ⟨by simpa [TileStore.store] using h.capacity, fun t ht => ?_⟩
  rcases Array.mem_or_eq_of_mem_setIfInBounds ht with hr | rfl
  · exact h.tiles t hr
  · rw [Row.length_fit, h.length_read]

end TileStore

end Systolic
