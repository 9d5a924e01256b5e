import Systolic.Proofs.Checked.Basic
import Systolic.Proofs.Storage.Shape

/-!
# Partial operations on the memories

Reading and writing with every remainder and every index checked. In memories of the right shape nothing traps, whatever
the address (`RowStore.tryRead_eq`, `TileStore.tryRead_eq`, `Bank.tryRead_eq`). The accumulators are a bank of columns,
one for each column of the array; `Bank.store` reads them row by row.
-/

namespace Systolic

open Checked

theorem index_array {rows : Array Row} {i : Nat} (h : i < rows.size) : index rows[i]? = .ok (rows.getD i []) := by
  rw [Array.getD_eq_getD_getElem?, Array.getElem?_eq_getElem h, index_some, Option.getD_some]

/-! ## Rows -/

namespace RowStore

def tryRead (m : RowStore) (addr : UInt64) : Checked Row := do
  let i ← mod addr.toNat m.depth
  index m.rows[i]?

def tryWrite (m : RowStore) (addr : UInt64) (row : Row) : Checked RowStore := do
  let i ← mod addr.toNat m.depth
  let old ← index m.rows[i]?
  return { m with rows := m.rows.setIfInBounds i (row.fit old.length) }

/-- The write of a unit that may be idle. -/
def tryCommit (m : RowStore) : Option RowStore.Write → Checked RowStore
  | some w => m.tryWrite w.addr w.row
  | none => return m

variable {m : RowStore} {depth width : Nat}

theorem tryRead_eq (h : 0 < m.depth) (addr : UInt64) : m.tryRead addr = .ok (m.read addr) := by
  have hslot : m.slot addr < m.rows.size := slot_lt h addr
  simp only [tryRead, mod_eq h, ok_bind]
  exact index_array hslot

theorem tryWrite_eq (h : m.Fits depth width) (hd : 0 < depth) (addr : UInt64) (row : Row) :
    m.tryWrite addr row = .ok (m.write addr row) := by
  have hpos : 0 < m.depth := h.depth_eq ▸ hd
  have hslot : m.slot addr < m.rows.size := slot_lt hpos addr
  have hlength := h.length_read hd addr
  have hold : index m.rows[addr.toNat % m.depth]? = .ok (m.read addr) := index_array hslot
  simp only [tryWrite, mod_eq hpos, ok_bind, hold, hlength, ← h.width_eq]
  rfl

theorem tryCommit_eq (h : m.Fits depth width) (hd : 0 < depth) (w? : Option RowStore.Write) :
    m.tryCommit w? = .ok (m.commit w?) := by
  cases w? with
  | none => rfl
  | some w => exact tryWrite_eq h hd w.addr w.row

end RowStore

/-! ## Weight tiles -/

namespace TileStore

def tryRead (m : TileStore) (addr : UInt64) : Checked Row := do
  let i ← mod addr.toNat m.tiles.size
  index m.tiles[i]?

def tryStore (m : TileStore) (addr : UInt64) (cells : Row) : Checked TileStore := do
  let i ← mod addr.toNat m.tiles.size
  let old ← index m.tiles[i]?
  return ⟨m.tiles.setIfInBounds i (cells.fit old.length)⟩

variable {m : TileStore} {size : Nat}

theorem tryRead_eq (h : m.Fits size) (addr : UInt64) : m.tryRead addr = .ok (m.read addr) := by
  have hslot : m.slot addr < m.tiles.size := Nat.mod_lt _ h.capacity
  simp only [tryRead, mod_eq h.capacity, ok_bind]
  exact index_array hslot

theorem tryStore_eq (h : m.Fits size) (addr : UInt64) (cells : Row) :
    m.tryStore addr cells = .ok (m.store addr cells) := by
  have hslot : m.slot addr < m.tiles.size := Nat.mod_lt _ h.capacity
  have hold : index m.tiles[addr.toNat % m.tiles.size]? = .ok (m.read addr) := index_array hslot
  simp only [tryStore, mod_eq h.capacity, ok_bind, hold]
  rfl

end TileStore

/-! ## Accumulators -/

/-- The accumulators, column by column. -/
structure Bank where
  columns : List (List Word)
  deriving DecidableEq

namespace Bank

/-- `depth` zeros in each of `columns` columns. -/
def blank (columns depth : Nat) : Bank := ⟨List.replicate columns (List.replicate depth 0)⟩

/-- The depth of the first column. -/
def depth (b : Bank) : Nat := (b.columns.head?.map (·.length)).getD 0

def tryRead (b : Bank) (column : Nat) (addr : UInt64) : Checked Word := do
  let elements ← index b.columns[column]?
  let i ← mod addr.toNat b.depth
  index elements[i]?

/-- Row `addr` across all columns. -/
def tryReadRow (b : Bank) (addr : UInt64) : Checked Row := do
  let i ← mod addr.toNat b.depth
  b.columns.mapM fun elements => index elements[i]?

def tryWrite (b : Bank) (w : AccStore.Write) : Checked Bank := do
  let i ← mod w.addr.toNat b.depth
  let elements ← index b.columns[w.column]?
  let elements ← put elements i w.value
  let columns ← put b.columns w.column elements
  return ⟨columns⟩

/-- Several writes, in order. -/
def tryApply (b : Bank) (ws : List AccStore.Write) : Checked Bank := ws.foldlM tryWrite b

/-- The accumulators row by row. -/
def store (b : Bank) : AccStore := ⟨((List.range b.depth).map fun i => b.columns.map (·.getD i 0)).toArray⟩

/-- One column of `depth` elements for each column of the array. -/
structure Fits (b : Bank) (columns depth : Nat) : Prop where
  columns_pos : 0 < columns
  depth_pos : 0 < depth
  count : b.columns.length = columns
  elements : ∀ column ∈ b.columns, column.length = depth

theorem fits_blank {columns depth : Nat} (hc : 0 < columns) (hd : 0 < depth) : (blank columns depth).Fits columns depth := by
  constructor
  · exact hc
  · exact hd
  · simp [blank]
  · intro column hcolumn
    rw [List.eq_of_mem_replicate hcolumn, List.length_replicate]

theorem store_blank {columns depth : Nat} (hc : 0 < columns) : (blank columns depth).store = .blank columns depth := by
  have hdepth : (blank columns depth).depth = depth := by
    obtain ⟨k, rfl⟩ : ∃ k, columns = k + 1 := ⟨columns - 1, by omega⟩
    simp [blank, Bank.depth, List.replicate_succ]
  have hrow : ∀ i, (List.replicate depth (0 : Word)).getD i 0 = 0 := by
    intro i
    rw [List.getD_eq_getElem?_getD, List.getElem?_replicate]
    split <;> rfl
  rw [store, hdepth, AccStore.blank, if_neg (Nat.ne_of_gt hc)]
  simp only [blank, List.map_replicate, hrow, List.map_const', List.length_range, List.toArray_replicate]

theorem depth_store (b : Bank) : b.store.depth = b.depth := by
  simp [store, AccStore.depth]

section Fits

variable {b : Bank} {columns depth : Nat} (h : b.Fits columns depth)
include h

theorem Fits.depth_eq : b.depth = depth := by
  have hpos := h.columns_pos
  cases hb : b.columns with
  | nil =>
    have hcount := h.count
    rw [hb, List.length_nil] at hcount
    omega
  | cons column rest =>
    rw [Bank.depth, hb]
    exact h.elements column (hb ▸ List.mem_cons_self)

theorem Fits.pos : 0 < b.depth := by
  rw [h.depth_eq]
  exact h.depth_pos

theorem Fits.slot_lt (addr : UInt64) : addr.toNat % b.depth < depth := by
  rw [h.depth_eq]
  exact Nat.mod_lt _ h.depth_pos

theorem Fits.readRow_store (addr : UInt64) :
    b.store.readRow addr = b.columns.map (·.getD (addr.toNat % b.depth) 0) := by
  have hslot : addr.toNat % b.depth < b.depth := Nat.mod_lt _ h.pos
  rw [AccStore.readRow, AccStore.slot, depth_store, store, Array.getD_eq_getD_getElem?]
  simp [List.getElem?_range hslot]

theorem Fits.tryReadRow_eq (addr : UInt64) : b.tryReadRow addr = .ok (b.store.readRow addr) := by
  simp only [tryReadRow, mod_eq h.pos, ok_bind]
  rw [h.readRow_store]
  apply mapM_ok
  intro column hcolumn
  apply index_getD
  rw [h.elements column hcolumn]
  exact h.slot_lt addr

theorem Fits.tryRead_eq {column : Nat} (hc : column < columns) (addr : UInt64) :
    b.tryRead column addr = .ok (b.store.read column addr) := by
  have hlt : column < b.columns.length := by rwa [h.count]
  have hslot : addr.toNat % b.depth < b.columns[column].length := by
    rw [h.elements _ (List.getElem_mem hlt)]
    exact h.slot_lt addr
  simp only [tryRead, index_getElem hlt, mod_eq h.pos, ok_bind, index_getD hslot 0]
  apply congrArg Except.ok
  rw [AccStore.read, h.readRow_store]
  simp [hlt]

/-- Replacing an element of a column keeps the shape. -/
theorem Fits.set {c : Nat} (hc : c < b.columns.length) (i : Nat) (v : Word) :
    Fits ⟨b.columns.set c (b.columns[c].set i v)⟩ columns depth := by
  constructor
  · exact h.columns_pos
  · exact h.depth_pos
  · simp [h.count]
  · intro column hcolumn
    rcases List.mem_or_eq_of_mem_set hcolumn with hcolumn | rfl
    · exact h.elements column hcolumn
    · rw [List.length_set]
      exact h.elements _ (List.getElem_mem hc)

/-- An element that is replaced stands in its row of the store, the other rows stay. -/
theorem Fits.row_set {c i : Nat} (hc : c < b.columns.length) (hi : i < depth) (v : Word) (j : Nat) :
    (b.columns.set c (b.columns[c].set i v)).map (·.getD j 0) =
      if i = j then (b.columns.map (·.getD i 0)).set c v else b.columns.map (·.getD j 0) := by
  have hlength : i < b.columns[c].length := by
    rw [h.elements _ (List.getElem_mem hc)]
    exact hi
  rw [List.map_set]
  by_cases hij : i = j
  · subst hij
    rw [if_pos rfl, List.getD_eq_getElem?_getD, List.getElem?_set_self hlength, Option.getD_some]
  · rw [if_neg hij, List.getD_eq_getElem?_getD, List.getElem?_set_ne hij, ← List.getD_eq_getElem?_getD]
    apply List.ext_getElem?
    intro k
    rw [List.getElem?_set]
    split
    · rename_i hk
      subst hk
      simp [hc]
    · rfl

theorem Fits.store_set {c i : Nat} (hc : c < b.columns.length) (hi : i < depth) (v : Word) :
    store ⟨b.columns.set c (b.columns[c].set i v)⟩ =
      ⟨b.store.rows.setIfInBounds i ((b.columns.map (·.getD i 0)).set c v)⟩ := by
  rw [store, store, (h.set hc i v).depth_eq, h.depth_eq]
  apply congrArg AccStore.mk
  apply Array.ext_getElem?
  intro j
  simp only [List.getElem?_toArray, List.getElem?_map, Array.getElem?_setIfInBounds]
  by_cases hj : j < depth
  · rw [List.getElem?_range hj, Option.map_some, h.row_set hc hi v]
    by_cases hij : i = j
    · simp [hij, hj]
    · simp [hij]
  · have hij : i ≠ j := by omega
    simp [hij, hj]

theorem Fits.tryWrite_eq {w : AccStore.Write} (hc : w.column < columns) :
    ∃ b', b.tryWrite w = .ok b' ∧ b'.Fits columns depth ∧ b'.store = b.store.write w := by
  have hlt : w.column < b.columns.length := by rwa [h.count]
  have hslot : w.addr.toNat % b.depth < b.columns[w.column].length := by
    rw [h.elements _ (List.getElem_mem hlt)]
    exact h.slot_lt w.addr
  refine ⟨_, ?_, h.set hlt (w.addr.toNat % b.depth) w.value, ?_⟩
  · simp only [tryWrite, mod_eq h.pos, index_getElem hlt, put_eq hslot, put_eq hlt, ok_bind, pure_eq_ok]
  · rw [h.store_set hlt (h.slot_lt w.addr), ← h.readRow_store, AccStore.write, AccStore.slot, depth_store]

theorem Fits.tryApply_eq {ws : List AccStore.Write} (hws : ∀ w ∈ ws, w.column < columns) :
    ∃ b', b.tryApply ws = .ok b' ∧ b'.Fits columns depth ∧ b'.store = b.store.apply ws := by
  induction ws generalizing b with
  | nil => exact ⟨b, rfl, h, rfl⟩
  | cons w ws ih =>
    obtain ⟨b', hb', hfits, hstore⟩ := h.tryWrite_eq (hws w List.mem_cons_self)
    obtain ⟨b'', hb'', hfits', hstore'⟩ := ih hfits fun v hv => hws v (List.mem_cons_of_mem w hv)
    refine ⟨b'', ?_, hfits', ?_⟩
    · rw [tryApply, List.foldlM_cons, hb', ok_bind]
      exact hb''
    · rw [hstore', hstore]
      rfl

end Fits

end Bank

end Systolic
