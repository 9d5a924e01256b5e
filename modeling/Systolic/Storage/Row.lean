import Systolic.Word

/-!
# Row memories

The scratchpad and the host memory hold rows of one width. Row addresses wrap around at the depth, and a row that is
written is padded with zeros or cut to the width.
-/

namespace Systolic

/-- The elements of a vector. -/
abbrev Row := List Word

namespace Row

/-- Exactly `width` elements: zeros fill up a short row, a long one is cut. -/
def fit (width : Nat) (row : Row) : Row := (row ++ List.replicate (width - row.length) 0).take width

/-- Every element in a register of `bits` bits. -/
def wrap (bits : Nat) (row : Row) : Row := row.map (Word.wrap bits)

/-- Whether some element differs from zero. -/
def nonzero (row : Row) : Bool := row.any (· != 0)

@[simp] theorem length_fit (width : Nat) (row : Row) : (row.fit width).length = width := by
  simp [fit]; omega

theorem getD_fit {width i : Nat} (h : i < width) (row : Row) : (row.fit width).getD i 0 = row.getD i 0 := by
  simp only [fit, List.getD_eq_getElem?_getD, List.getElem?_take, h, if_true, List.getElem?_append,
    List.getElem?_replicate]
  split
  · rfl
  · rename_i hi
    rw [List.getElem?_eq_none (Nat.le_of_not_lt hi)]
    split <;> rfl

/-- A row with its positions, as a loop over the positions. -/
theorem mapIdx_eq_map_range {β : Type} (row : Row) (f : Nat → Word → β) :
    row.mapIdx f = (List.range row.length).map fun i => f i (row.getD i 0) := by
  apply List.ext_getElem?
  intro i
  rw [List.getElem?_mapIdx, List.getElem?_map]
  by_cases hi : i < row.length
  · simp [hi]
  · simp [hi]

end Row

/-- Rows by address. -/
structure RowStore where
  width : Nat
  rows : Array Row
  deriving DecidableEq

/-- A row on its way into a memory. -/
structure RowStore.Write where
  addr : UInt64
  row : Row
  deriving DecidableEq

instance : Inhabited RowStore.Write := ⟨⟨0, []⟩⟩

namespace RowStore

/-- `depth` rows of zeros. -/
def blank (depth width : Nat) : RowStore := ⟨width, .replicate depth (.replicate width 0)⟩

def depth (m : RowStore) : Nat := m.rows.size

/-- Where address `addr` is kept. -/
def slot (m : RowStore) (addr : UInt64) : Nat := addr.toNat % m.depth

def read (m : RowStore) (addr : UInt64) : Row := m.rows.getD (m.slot addr) []

def write (m : RowStore) (addr : UInt64) (row : Row) : RowStore :=
  { m with rows := m.rows.setIfInBounds (m.slot addr) (row.fit m.width) }

def apply (m : RowStore) (w : RowStore.Write) : RowStore := m.write w.addr w.row

/-- The write of a unit that may be idle. -/
def commit (m : RowStore) : Option RowStore.Write → RowStore
  | some w => m.apply w
  | none => m

/-- The rows that differ from zero, with their addresses, in ascending order. -/
def nonzeroRows (m : RowStore) : List (Nat × Row) :=
  (m.rows.toList.zipIdx.filter (·.1.nonzero)).map fun (row, addr) => (addr, row)

@[simp] theorem depth_blank (depth width : Nat) : (blank depth width).depth = depth := by
  simp [blank, RowStore.depth]

@[simp] theorem depth_write (m : RowStore) (addr : UInt64) (row : Row) : (m.write addr row).depth = m.depth := by
  simp [write, depth]

@[simp] theorem width_write (m : RowStore) (addr : UInt64) (row : Row) : (m.write addr row).width = m.width := rfl

theorem slot_lt {m : RowStore} (h : 0 < m.depth) (addr : UInt64) : m.slot addr < m.depth := Nat.mod_lt _ h

/-- Reading after a write: the written row at its slot, what stood there before anywhere else. -/
theorem read_write {m : RowStore} (h : 0 < m.depth) (a b : UInt64) (row : Row) :
    (m.write a row).read b = if m.slot b = m.slot a then row.fit m.width else m.read b := by
  have ha : m.slot a < m.rows.size := slot_lt h a
  have hs : (m.write a row).slot b = m.slot b := by simp [slot]
  unfold read
  rw [hs]
  simp only [write, Array.getD_eq_getD_getElem?, Array.getElem?_setIfInBounds]
  split <;> rename_i hab
  · simp [hab]
  · simp [Ne.symm hab]

end RowStore

end Systolic
