import Systolic.Proofs.Storage.Shape

/-!
# Elements of the accumulators

`elem c k` is the element of column `c` in row `k`. In one cycle every column writes at most once, so of several writes to
different columns each takes effect in its column (`elem_apply_of_mem`), and a column that is not written keeps its
elements (`elem_apply_of_ne`). Two memories of one shape that agree in every element are the same (`Fits.ext`).
-/

namespace Systolic.AccStore

/-- The element of column `c` in row `k`. -/
def elem (m : AccStore) (c k : Nat) : Word := (m.rows.getD k []).getD c 0

theorem read_eq_elem (m : AccStore) (c : Nat) (addr : UInt64) : m.read c addr = m.elem c (m.slot addr) := rfl

variable {m : AccStore} {columns : Nat} {ws : List Write}

theorem elem_write (hf : m.Fits columns) {w : Write} (hw : w.column < columns) (c k : Nat) :
    (m.write w).elem c k = if c = w.column ∧ k = m.slot w.addr then w.value else m.elem c k := by
  have hs : m.slot w.addr < m.rows.size := slot_lt hf.depth w.addr
  have hlen : w.column < (m.readRow w.addr).length := by rw [hf.length_readRow]; exact hw
  unfold elem
  by_cases hrow : k = m.slot w.addr
  · subst hrow
    by_cases hcol : c = w.column
    · subst hcol
      simp [write, hs, hlen]
    · simp [write, hs, hcol, readRow, Ne.symm hcol]
  · simp [write, hrow, Ne.symm hrow]

theorem elem_write_of_ne {w : Write} {c : Nat} (h : c ≠ w.column) (k : Nat) : (m.write w).elem c k = m.elem c k := by
  unfold elem
  by_cases hrow : k = m.slot w.addr
  · by_cases hs : m.slot w.addr < m.rows.size
    · simp [write, hrow, hs, readRow, Ne.symm h]
    · simp [write, hrow, hs]
  · simp [write, Ne.symm hrow]

theorem elem_apply_of_ne {c : Nat} (h : ∀ w ∈ ws, w.column ≠ c) (k : Nat) : (m.apply ws).elem c k = m.elem c k := by
  induction ws generalizing m with
  | nil => rfl
  | cons w ws ih =>
    have hrest := ih (m := m.write w) fun v hv => h v (List.mem_cons_of_mem w hv)
    exact hrest.trans (elem_write_of_ne (Ne.symm (h w List.mem_cons_self)) k)

/-- Of writes to different columns, each takes effect at its slot. -/
theorem elem_apply_of_mem (hf : m.Fits columns) (hp : ws.Pairwise fun v w => v.column ≠ w.column) {w : Write}
    (hw : w ∈ ws) (hc : w.column < columns) (k : Nat) :
    (m.apply ws).elem w.column k = if k = m.slot w.addr then w.value else m.elem w.column k := by
  induction ws generalizing m with
  | nil => cases hw
  | cons v vs ih =>
    obtain ⟨hv, hvs⟩ := List.pairwise_cons.1 hp
    rcases List.mem_cons.1 hw with rfl | hmem
    · have hrest := elem_apply_of_ne (m := m.write w) (fun u hu => Ne.symm (hv u hu)) k
      refine hrest.trans ?_
      rw [elem_write hf hc]
      simp
    · refine (ih (m := m.write v) (hf.write v) hvs hmem).trans ?_
      rw [slot_write, elem_write_of_ne (Ne.symm (hv w hmem))]

/-- Of writes to different columns, one at most goes to a column. -/
theorem filter_column (hp : ws.Pairwise fun v w => v.column ≠ w.column) {w : Write} (hw : w ∈ ws) :
    ws.filter (·.column == w.column) = [w] := by
  induction ws with
  | nil => cases hw
  | cons v vs ih =>
    obtain ⟨hv, hvs⟩ := List.pairwise_cons.1 hp
    rcases List.mem_cons.1 hw with rfl | hmem
    · have hrest : vs.filter (·.column == w.column) = [] :=
        List.filter_eq_nil_iff.2 fun u hu => by simpa using Ne.symm (hv u hu)
      rw [List.filter_cons_of_pos (by simp), hrest]
    · rw [List.filter_cons_of_neg (by simpa using hv w hmem), ih hvs hmem]

/-! ## Whole rows -/

@[simp] theorem depth_writeRow (m : AccStore) (addr : UInt64) (row : Row) : (m.writeRow addr row).depth = m.depth := by
  unfold AccStore.writeRow depth
  simp

/-- A row of full length replaces the one at its slot. -/
theorem writeRow_eq (hf : m.Fits columns) (addr : UInt64) {row : Row} (hrow : row.length = columns) :
    m.writeRow addr row = ⟨m.rows.setIfInBounds (m.slot addr) row⟩ := by
  have hlen : (m.readRow addr).length = row.length := (hf.length_readRow addr).trans hrow.symm
  simp only [AccStore.writeRow, hlen, List.take_length, List.drop_of_length_le (Nat.le_of_eq hlen), List.append_nil]

theorem Fits.writeRow (hf : m.Fits columns) (addr : UInt64) {row : Row} (hrow : row.length = columns) :
    (m.writeRow addr row).Fits columns := by
  refine ⟨by rw [depth_writeRow]; exact hf.depth, fun r hr => ?_⟩
  rw [writeRow_eq hf addr hrow] at hr
  rcases Array.mem_or_eq_of_mem_setIfInBounds hr with hr | rfl
  · exact hf.rows r hr
  · exact hrow

theorem elem_writeRow (hf : m.Fits columns) (addr : UInt64) {row : Row} (hrow : row.length = columns) (c k : Nat) :
    (m.writeRow addr row).elem c k = if k = m.slot addr then row.getD c 0 else m.elem c k := by
  have hs : m.slot addr < m.rows.size := slot_lt hf.depth addr
  rw [writeRow_eq hf addr hrow]
  by_cases hk : k = m.slot addr
  · subst hk
    simp [elem, hs]
  · simp [elem, hk, Ne.symm hk]

/-- A row is the same in two memories of one shape when its elements are. -/
theorem Fits.row_ext {n : AccStore} (hm : m.Fits columns) (hn : n.Fits columns) (hd : m.depth = n.depth) {k : Nat}
    (h : ∀ c < columns, m.elem c k = n.elem c k) : m.rows[k]? = n.rows[k]? := by
  have hd' : m.rows.size = n.rows.size := hd
  by_cases hk : k < m.rows.size
  · have hk' : k < n.rows.size := by omega
    have hlen : m.rows[k].length = columns := hm.rows _ (Array.getElem_mem hk)
    have hlen' : n.rows[k].length = columns := hn.rows _ (Array.getElem_mem hk')
    rw [Array.getElem?_eq_getElem hk, Array.getElem?_eq_getElem hk']
    refine congrArg some (List.ext_getElem (hlen.trans hlen'.symm) fun c hc hc' => ?_)
    have hcell := h c (by omega)
    simpa [elem, hk, hk', hc, hc'] using hcell
  · rw [Array.getElem?_eq_none (by omega), Array.getElem?_eq_none (by omega)]

/-- Memories of one shape are the same when their elements are. -/
theorem Fits.ext {n : AccStore} (hm : m.Fits columns) (hn : n.Fits columns) (hd : m.depth = n.depth)
    (h : ∀ c < columns, ∀ k, m.elem c k = n.elem c k) : m = n := by
  have hrows : m.rows = n.rows := Array.ext_getElem? fun k => hm.row_ext hn hd fun c hc => h c hc k
  cases m
  cases n
  exact congrArg AccStore.mk hrows

end Systolic.AccStore
