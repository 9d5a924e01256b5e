import Systolic.Storage.Row

/-!
# Accumulator memory

One memory per array column, kept row by row: row `addr` holds element `addr` of every column. Row addresses wrap
around at the depth.
-/

namespace Systolic

structure AccStore where
  rows : Array Row
  deriving DecidableEq

/-- One element on its way into the memory of a column. -/
structure AccStore.Write where
  column : Nat
  addr : UInt64
  value : Word
  deriving DecidableEq

namespace AccStore

/-- `depth` rows of `columns` zeros; without a column there are no rows either. -/
def blank (columns depth : Nat) : AccStore :=
  ⟨if columns = 0 then #[] else .replicate depth (.replicate columns 0)⟩

def depth (m : AccStore) : Nat := m.rows.size

/-- Where address `addr` is kept. -/
def slot (m : AccStore) (addr : UInt64) : Nat := addr.toNat % m.depth

def readRow (m : AccStore) (addr : UInt64) : Row := m.rows.getD (m.slot addr) []

def read (m : AccStore) (column : Nat) (addr : UInt64) : Word := (m.readRow addr).getD column 0

/-- Replace the leading elements of row `addr`; the columns that `row` does not reach keep theirs. -/
def writeRow (m : AccStore) (addr : UInt64) (row : Row) : AccStore :=
  let old := m.readRow addr
  ⟨m.rows.setIfInBounds (m.slot addr) (row.take old.length ++ old.drop row.length)⟩

def write (m : AccStore) (w : AccStore.Write) : AccStore :=
  ⟨m.rows.setIfInBounds (m.slot w.addr) ((m.readRow w.addr).set w.column w.value)⟩

/-- Several writes, in order. -/
def apply (m : AccStore) (ws : List AccStore.Write) : AccStore := ws.foldl write m

/-- The rows that differ from zero, with their addresses, in ascending order. -/
def nonzeroRows (m : AccStore) : List (Nat × Row) :=
  (m.rows.toList.zipIdx.filter (·.1.nonzero)).map fun (row, addr) => (addr, row)

@[simp] theorem depth_write (m : AccStore) (w : AccStore.Write) : (m.write w).depth = m.depth := by simp [write, depth]

@[simp] theorem depth_apply (m : AccStore) (ws : List AccStore.Write) : (m.apply ws).depth = m.depth := by
  induction ws generalizing m with
  | nil => rfl
  | cons w ws ih => simpa [apply] using ih (m.write w)

@[simp] theorem slot_write (m : AccStore) (w : AccStore.Write) (addr : UInt64) : (m.write w).slot addr = m.slot addr := by
  simp [slot]

theorem slot_lt {m : AccStore} (h : 0 < m.depth) (addr : UInt64) : m.slot addr < m.depth := Nat.mod_lt _ h

/-- Reading after a write: the written value in its cell, what stood there before in any other. -/
theorem read_write {m : AccStore} (h : 0 < m.depth) {w : AccStore.Write} (hw : w.column < (m.readRow w.addr).length)
    (column : Nat) (addr : UInt64) :
    (m.write w).read column addr =
      if column = w.column ∧ m.slot addr = m.slot w.addr then w.value else m.read column addr := by
  have hs : m.slot w.addr < m.rows.size := slot_lt h w.addr
  unfold read readRow
  rw [slot_write]
  by_cases hrow : m.slot addr = m.slot w.addr
  · by_cases hcol : column = w.column
    · subst hcol
      simp [write, hrow, hs, hw]
    · simp [write, hrow, hs, hcol, readRow, Ne.symm hcol]
  · simp [write, hrow, Ne.symm hrow]

end AccStore

end Systolic
