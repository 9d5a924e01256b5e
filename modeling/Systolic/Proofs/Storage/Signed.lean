import Systolic.Machine.Basic
import Systolic.Proofs.Word.Signed

/-!
# Memories of signed words

A memory is signed if all its elements are signed numbers of its width. Blank memories are, a row that is read from a
signed memory is (`RowStore.Signed.read`, `AccStore.Signed.readRow`, `TileStore.Signed.read`), and writing signed
elements keeps it.
-/

namespace Systolic

/-- An element that is read out of bounds gives an empty row. -/
theorem signed_getD {bits : Nat} {rows : Array Row} (h : ∀ row ∈ rows, row.Signed bits) (i : Nat) :
    Row.Signed bits (rows.getD i []) := by
  rw [Array.getD_eq_getD_getElem?]
  cases hi : rows[i]? with
  | none => exact Row.signed_nil bits
  | some row => exact h row (Array.mem_of_getElem? hi)

/-- A row of an array in which one row is replaced. -/
theorem signed_setIfInBounds {bits : Nat} {rows : Array Row} (h : ∀ row ∈ rows, row.Signed bits) (i : Nat) {row : Row}
    (hrow : row.Signed bits) : ∀ r ∈ rows.setIfInBounds i row, r.Signed bits := by
  intro r hr
  rcases Array.mem_or_eq_of_mem_setIfInBounds hr with hr | rfl
  · exact h r hr
  · exact hrow

theorem signed_replicate_rows {bits depth width : Nat} :
    ∀ row ∈ Array.replicate depth (List.replicate width (0 : Word)), Row.Signed bits row := by
  intro row hrow
  rw [Array.eq_of_mem_replicate hrow]
  exact Row.signed_replicate bits width

namespace RowStore

variable {bits : Nat} {m : RowStore}

def Signed (bits : Nat) (m : RowStore) : Prop := ∀ row ∈ m.rows, row.Signed bits

theorem signed_blank (bits depth width : Nat) : (blank depth width).Signed bits := signed_replicate_rows

theorem Signed.read (h : m.Signed bits) (addr : UInt64) : (m.read addr).Signed bits := signed_getD h _

theorem Signed.write (h : m.Signed bits) {row : Row} (hrow : row.Signed bits) (addr : UInt64) :
    (m.write addr row).Signed bits :=
  signed_setIfInBounds h _ (hrow.fit _)

theorem Signed.commit (h : m.Signed bits) {w? : Option RowStore.Write} (hw : ∀ w, w? = some w → w.row.Signed bits) :
    (m.commit w?).Signed bits := by
  cases w? with
  | none => exact h
  | some w => exact h.write (hw w rfl) _

end RowStore

namespace AccStore

variable {bits : Nat} {m : AccStore}

def Signed (bits : Nat) (m : AccStore) : Prop := ∀ row ∈ m.rows, row.Signed bits

theorem signed_blank (bits columns depth : Nat) : (blank columns depth).Signed bits := by
  unfold blank Signed
  split
  · simp
  · exact signed_replicate_rows

theorem Signed.readRow (h : m.Signed bits) (addr : UInt64) : (m.readRow addr).Signed bits := signed_getD h _

theorem Signed.write (h : m.Signed bits) {w : AccStore.Write} (hw : Word.Signed bits w.value) :
    (m.write w).Signed bits :=
  signed_setIfInBounds h _ ((h.readRow w.addr).set hw _)

theorem Signed.apply (h : m.Signed bits) {ws : List AccStore.Write} (hws : ∀ w ∈ ws, Word.Signed bits w.value) :
    (m.apply ws).Signed bits := by
  induction ws generalizing m with
  | nil => exact h
  | cons w ws ih =>
    apply ih
    · exact h.write (hws w List.mem_cons_self)
    · intro v hv
      exact hws v (List.mem_cons_of_mem w hv)

end AccStore

namespace TileStore

variable {bits : Nat} {m : TileStore}

def Signed (bits : Nat) (m : TileStore) : Prop := ∀ cells ∈ m.tiles, Row.Signed bits cells

theorem signed_blank (bits capacity size : Nat) : (blank capacity size).Signed bits := signed_replicate_rows

theorem Signed.read (h : m.Signed bits) (addr : UInt64) : (m.read addr).Signed bits := signed_getD h _

theorem Signed.store (h : m.Signed bits) {cells : Row} (hcells : cells.Signed bits) (addr : UInt64) :
    (m.store addr cells).Signed bits :=
  signed_setIfInBounds h _ (hcells.fit _)

end TileStore

/-- Data and weights have the data width, accumulators theirs. -/
structure Memories.Signed (chip : Chip) (m : Memories) : Prop where
  pad : m.pad.Signed chip.dataWidth
  host : m.host.Signed chip.dataWidth
  acc : m.acc.Signed chip.accWidth
  weights : m.weights.Signed chip.dataWidth

theorem Memories.signed_blank (chip : Chip) : (blank chip).Signed chip := by
  constructor
  · exact RowStore.signed_blank _ _ _
  · exact RowStore.signed_blank _ _ _
  · exact AccStore.signed_blank _ _ _
  · exact TileStore.signed_blank _ _ _

end Systolic
