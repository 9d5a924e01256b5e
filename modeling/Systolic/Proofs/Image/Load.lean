import Systolic.Proofs.Image.Elements
import Systolic.Proofs.Machine.Shape
import Systolic.Proofs.Policy.InPlace

/-!
# Loading an image

Rows of the host memory and weight tiles are loaded alike: an image is cut into pieces, and piece `k` is written at
address `k`, which wraps around at the capacity. `Image.overlay` is what stands in the memory then. Loading changes
nothing else (`Machine.Reachable.pokeAll_writes`), so that every place has the last piece that belongs there, or what it
had before (`Machine.Reachable.loaded`).

An image is cut before the first piece is written. `Machine.loadInPlace` is this order of updates, with the machine that
a rejection leaves behind; a rejected image changes nothing (`Machine.loadInPlace_eq`).
-/

namespace Systolic

/-! ## Pieces over rows -/

namespace Image

/-- Rows with `pieces` written over them from address `first` on; addresses wrap around. -/
def overlay (rows : Array Row) (first : Nat) : List Row → Array Row
  | [] => rows
  | row :: pieces => overlay (rows.setIfInBounds (first % rows.size) row) (first + 1) pieces

variable {rows : Array Row} {first : Nat} {pieces : List Row}

theorem size_overlay (rows : Array Row) (first : Nat) (pieces : List Row) :
    (overlay rows first pieces).size = rows.size := by
  induction pieces generalizing rows first with
  | nil => rfl
  | cons row pieces ih => rw [overlay, ih, Array.size_setIfInBounds]

/-- A place that no piece belongs to. -/
theorem getElem?_overlay_of_ne {r : Nat} (h : ∀ k < pieces.length, (first + k) % rows.size ≠ r) :
    (overlay rows first pieces)[r]? = rows[r]? := by
  induction pieces generalizing rows first with
  | nil => rfl
  | cons row pieces ih =>
    have hfirst : first % rows.size ≠ r := h 0 (Nat.succ_pos _)
    rw [overlay, ih, Array.getElem?_setIfInBounds_ne hfirst]
    intro k hk
    rw [Array.size_setIfInBounds, Nat.add_assoc, Nat.add_comm 1]
    exact h (k + 1) (Nat.succ_lt_succ hk)

/-- The place of a piece behind which no other belongs there. -/
theorem getElem?_overlay (hpos : 0 < rows.size) {k : Nat} {row : Row} (hk : pieces[k]? = some row)
    (hlast : ∀ j < pieces.length, k < j → (first + j) % rows.size ≠ (first + k) % rows.size) :
    (overlay rows first pieces)[(first + k) % rows.size]? = some row := by
  induction pieces generalizing rows first k with
  | nil => cases hk
  | cons head pieces ih =>
    have hsize : (rows.setIfInBounds (first % rows.size) head).size = rows.size := Array.size_setIfInBounds
    have hshift : ∀ j, first + 1 + j = first + (j + 1) := fun j => by omega
    cases k with
    | zero =>
      obtain rfl := Option.some.inj hk
      rw [overlay, getElem?_overlay_of_ne]
      · rw [Nat.add_zero, Array.getElem?_setIfInBounds_self_of_lt (Nat.mod_lt _ hpos)]
      · intro j hj
        rw [hsize, hshift]
        exact hlast (j + 1) (Nat.succ_lt_succ hj) (Nat.succ_pos j)
    | succ k =>
      have hlater : (overlay (rows.setIfInBounds (first % rows.size) head) (first + 1) pieces)[
          (first + 1 + k) % (rows.setIfInBounds (first % rows.size) head).size]? = some row := by
        apply ih _ hk
        · intro j hj hlt
          rw [hsize, hshift, hshift]
          exact hlast (j + 1) (Nat.succ_lt_succ hj) (Nat.succ_lt_succ hlt)
        · rwa [hsize]
      rwa [hsize, hshift] at hlater

theorem getElem?_overlay_zero (hpos : 0 < rows.size) {k : Nat} {row : Row} (hk : pieces[k]? = some row)
    (hlast : ∀ j < pieces.length, k < j → j % rows.size ≠ k % rows.size) :
    (overlay rows 0 pieces)[k % rows.size]? = some row := by
  rw [← Nat.zero_add k]
  apply getElem?_overlay hpos hk
  simpa only [Nat.zero_add] using hlast

/-- As many pieces as there are rows take all places. -/
theorem toList_overlay (h : pieces.length = rows.size) : (overlay rows 0 pieces).toList = pieces := by
  apply List.ext_getElem?
  intro r
  rw [Array.getElem?_toList]
  by_cases hr : r < pieces.length
  · have hwrap : ∀ j < pieces.length, j % rows.size = j := fun j hj => Nat.mod_eq_of_lt (h ▸ hj)
    have hrow := getElem?_overlay_zero (h ▸ Nat.zero_lt_of_lt hr) (List.getElem?_eq_getElem hr) fun j hj hlt => by
      rw [hwrap j hj, hwrap r hr]
      exact Nat.ne_of_gt hlt
    rw [hwrap r hr] at hrow
    rw [hrow, List.getElem?_eq_getElem hr]
  · rw [List.getElem?_eq_none (Nat.le_of_not_lt hr), Array.getElem?_eq_none]
    rw [size_overlay, ← h]
    exact Nat.le_of_not_lt hr

end Image

/-! ## The two memories -/

namespace ImageKind

/-- Elements of one piece: a row, or a tile. -/
def pieceSize (chip : Chip) : ImageKind → Nat
  | host => chip.size
  | weight => chip.size * chip.size

/-- Bytes of one piece. -/
def pieceBytes (kind : ImageKind) (chip : Chip) : Nat := kind.pieceSize chip * Image.elementBytes chip

/-- How many pieces the memory holds. -/
def capacity (chip : Chip) : ImageKind → Nat
  | host => chip.hostRows
  | weight => chip.tiles

/-- What stands in the memory, by address. -/
def contents (m : Machine) : ImageKind → Array Row
  | host => m.memories.host.rows
  | weight => m.memories.weights.tiles

/-- The machine with `rows` in the memory. -/
def replace (m : Machine) (rows : Array Row) : ImageKind → Machine
  | host => { m with memories.host.rows := rows }
  | weight => { m with memories.weights.tiles := rows }

/-- The write of one piece. -/
def poke (addr : UInt64) (row : Row) : ImageKind → Poke
  | host => .host addr row
  | weight => .tile addr row

/-- The writes of several pieces from address `first` on. -/
def writes (kind : ImageKind) (first : Nat) (rows : List Row) : List Poke :=
  (rows.zipIdx first).map fun (row, addr) => kind.poke (.ofNat addr) row

variable (kind : ImageKind) (m : Machine) (rows : Array Row)

@[simp] theorem contents_replace : kind.contents (kind.replace m rows) = rows := by cases kind <;> rfl

@[simp] theorem replace_contents : kind.replace m (kind.contents m) = m := by cases kind <;> rfl

@[simp] theorem replace_replace (rows' : Array Row) :
    kind.replace (kind.replace m rows) rows' = kind.replace m rows' := by cases kind <;> rfl

theorem writes_cons (first : Nat) (row : Row) (rows : List Row) :
    kind.writes first (row :: rows) = kind.poke (.ofNat first) row :: kind.writes (first + 1) rows := by
  rw [writes, writes, List.zipIdx_cons, List.map_cons]

theorem pieceBytes_pos {chip : Chip} (hvalid : chip.Valid) : 0 < kind.pieceBytes chip := by
  apply Nat.mul_pos _ hvalid.elementBytes.1
  cases kind with
  | host => exact hvalid.size_pos
  | weight => exact Nat.mul_pos hvalid.size_pos hvalid.size_pos

end ImageKind

namespace Machine

/-- Load an image into either memory; also how many pieces there were. -/
def load (m : Machine) (kind : ImageKind) (bytes : List UInt8) : Except RaggedImage (Machine × Nat) :=
  match kind with
  | .host => m.loadHost bytes
  | .weight => m.loadWeights bytes

variable {chip : Chip} {program : Program} {m : Machine} (kind : ImageKind)

/-- Loading writes the pieces one by one. -/
theorem load_eq (m : Machine) (bytes : List UInt8) : m.load kind bytes =
    (Image.split m.chip kind (kind.pieceSize m.chip) bytes).map fun rows =>
      (m.pokeAll (kind.writes 0 rows), rows.length) := by
  have hplace : ∀ rows : List Row, m.pokeAll (kind.writes 0 rows) =
      rows.zipIdx.foldl (fun m (row, addr) => m.poke (kind.poke (.ofNat addr) row)) m := fun rows => List.foldl_map
  simp only [hplace]
  cases kind <;> rfl

/-! ## What a piece changes -/

theorem Reachable.tiles_size (h : Reachable chip program m) : m.memories.weights.tiles.size = chip.tiles := by
  refine h.invariant (P := fun m => m.memories.weights.tiles.size = chip.tiles) ?_ ?_ ?_ ?_
  · exact Array.size_replicate
  · exact fun m _ hm => hm
  · exact fun m _ hm => hm
  · intro m p _ hm
    cases p with
    | host addr row => exact hm
    | pad addr row => exact hm
    | tile addr cells => exact Array.size_setIfInBounds.trans hm

theorem Reachable.size_contents (h : Reachable chip program m) : (kind.contents m).size = kind.capacity chip := by
  cases kind with
  | host => exact h.formed.stores.host.depth_eq
  | weight => exact h.tiles_size

theorem Reachable.capacity_pos (h : Reachable chip program m) : 0 < kind.capacity chip := by
  cases kind with
  | host => exact h.formed.valid.hostRows
  | weight => exact h.formed.valid.tiles

/-- A whole piece is written as it is, cut to the data width, and nothing else changes. -/
theorem Reachable.poke_piece (h : Reachable chip program m) (addr : UInt64) {row : Row}
    (hrow : row.length = kind.pieceSize chip) : m.poke (kind.poke addr row) =
      kind.replace m ((kind.contents m).setIfInBounds (addr.toNat % (kind.contents m).size)
        (row.wrap chip.dataWidth)) := by
  obtain ⟨-, rfl, -, hmem, hstores, -⟩ := h.formed
  have hlen : (row.wrap m.chip.dataWidth).length = kind.pieceSize m.chip := by rw [Row.wrap, List.length_map, hrow]
  cases kind with
  | host =>
    have hfit : (row.wrap m.chip.dataWidth).fit m.memories.host.width = row.wrap m.chip.dataWidth := by
      rw [show m.memories.host.width = _ from hstores.host.width_eq.trans hlen.symm, Row.fit_length]
    show m.writeHost addr row = _
    rw [writeHost, RowStore.write, hfit]
    rfl
  | weight =>
    have hfit : (row.wrap m.chip.dataWidth).fit (m.memories.weights.read addr).length = row.wrap m.chip.dataWidth := by
      rw [show (m.memories.weights.read addr).length = _ from (hmem.weights.length_read addr).trans hlen.symm,
        Row.fit_length]
    show m.storeTile addr row = _
    rw [storeTile, TileStore.store, hfit]
    rfl

theorem Reachable.pokeAll (h : Reachable chip program m) (ps : List Poke) : Reachable chip program (m.pokeAll ps) := by
  induction ps generalizing m with
  | nil => exact h
  | cons p ps ih => exact ih (h.poke p)

/-- Pieces lie over what stood in the memory, and nothing else changes. -/
theorem Reachable.pokeAll_writes (h : Reachable chip program m) (first : Nat) {rows : List Row}
    (hrows : ∀ row ∈ rows, row.length = kind.pieceSize chip) (haddr : first + rows.length ≤ 2 ^ 64) :
    m.pokeAll (kind.writes first rows) =
      kind.replace m (Image.overlay (kind.contents m) first (rows.map (Row.wrap chip.dataWidth))) := by
  induction rows generalizing m first with
  | nil => exact (kind.replace_contents m).symm
  | cons row rows ih =>
    rw [List.length_cons] at haddr
    have hfirst : (UInt64.ofNat first).toNat = first := UInt64.toNat_ofNat_of_lt' (by simp only [UInt64.size]; omega)
    have hpiece := h.poke_piece kind (.ofNat first) (hrows row List.mem_cons_self)
    rw [hfirst] at hpiece
    rw [kind.writes_cons, List.map_cons, Image.overlay]
    show (m.poke (kind.poke (.ofNat first) row)).pokeAll (kind.writes (first + 1) rows) = _
    rw [ih (h.poke _) (first + 1) (fun r hr => hrows r (List.mem_cons_of_mem row hr)) (by omega), hpiece,
      kind.contents_replace, kind.replace_replace]

/-! ## What an image changes -/

/-- The image `bytes` has been loaded into `m`, which has become `next`. -/
structure Loaded (chip : Chip) (kind : ImageKind) (bytes : List UInt8) (m next : Machine) : Prop where
  /-- Nothing but the rows of the memory has changed. -/
  frame : next = kind.replace m (kind.contents next)
  /-- A place to which pieces belong has the last of them. -/
  last : ∀ k < bytes.length / kind.pieceBytes chip,
    (∀ j < bytes.length / kind.pieceBytes chip, k < j → j % kind.capacity chip ≠ k % kind.capacity chip) →
      (kind.contents next)[k % kind.capacity chip]? = some (Image.stored chip (kind.pieceSize chip) bytes k)
  /-- Any other has what it had. -/
  rest : ∀ r, (∀ k < bytes.length / kind.pieceBytes chip, k % kind.capacity chip ≠ r) →
    (kind.contents next)[r]? = (kind.contents m)[r]?

/-- An image in whole pieces is loaded. -/
theorem load_of_dvd (hchip : m.chip = chip) {bytes : List UInt8} (hdvd : kind.pieceBytes chip ∣ bytes.length) :
    m.load kind bytes = .ok (m.pokeAll (kind.writes 0 (Image.pieces chip (kind.pieceSize chip) bytes)),
      bytes.length / kind.pieceBytes chip) := by
  rw [load_eq, hchip, Image.split_of_dvd chip kind hdvd, Except.map, Image.length_pieces]
  rfl

/-- Any other image is rejected. -/
theorem load_of_ragged (hchip : m.chip = chip) {bytes : List UInt8} (hragged : ¬ kind.pieceBytes chip ∣ bytes.length) :
    m.load kind bytes = .error ⟨kind, bytes.length, kind.pieceBytes chip⟩ := by
  rw [load_eq, hchip, Image.split_of_ragged chip kind hragged]
  rfl

/-- The pieces of an image lie over the memory. -/
theorem Reachable.load_overlay (h : Reachable chip program m) {bytes : List UInt8}
    (hdvd : kind.pieceBytes chip ∣ bytes.length) (hcount : bytes.length / kind.pieceBytes chip ≤ 2 ^ 64) :
    m.load kind bytes = .ok (kind.replace m (Image.overlay (kind.contents m) 0
        ((Image.pieces chip (kind.pieceSize chip) bytes).map (Row.wrap chip.dataWidth))),
      bytes.length / kind.pieceBytes chip) := by
  have hlength : (Image.pieces chip (kind.pieceSize chip) bytes).length = bytes.length / kind.pieceBytes chip :=
    Image.length_pieces chip
  rw [load_of_dvd kind h.formed.chip_eq hdvd,
    h.pokeAll_writes kind 0 (Image.length_of_mem_pieces h.formed.valid hdvd) (by omega)]

/-- **Every place has the last piece that belongs there**, or what it had before. -/
theorem Reachable.loaded (h : Reachable chip program m) {bytes : List UInt8}
    (hdvd : kind.pieceBytes chip ∣ bytes.length) (hcount : bytes.length / kind.pieceBytes chip ≤ 2 ^ 64) :
    ∃ next, m.load kind bytes = .ok (next, bytes.length / kind.pieceBytes chip) ∧ Loaded chip kind bytes m next := by
  have hsize := h.size_contents kind
  have hstored : (Image.pieces chip (kind.pieceSize chip) bytes).map (Row.wrap chip.dataWidth) =
      (List.range (bytes.length / kind.pieceBytes chip)).map (Image.stored chip (kind.pieceSize chip) bytes) :=
    Image.wrap_pieces h.formed.valid hdvd
  refine ⟨_, h.load_overlay kind hdvd hcount, ?_⟩
  rw [hstored]
  constructor
  · rw [kind.contents_replace]
  · intro k hk hlast
    rw [kind.contents_replace, ← hsize]
    apply Image.getElem?_overlay_zero
    · exact Nat.lt_of_lt_of_eq (h.capacity_pos kind) hsize.symm
    · rw [List.getElem?_map, List.getElem?_range hk]
      rfl
    · rwa [hsize, List.length_map, List.length_range]
  · intro r hr
    rw [kind.contents_replace]
    apply Image.getElem?_overlay_of_ne
    simpa only [Nat.zero_add, hsize, List.length_map, List.length_range] using hr

/-- Loading leads from reachable machines to reachable ones. -/
theorem Reachable.of_load (h : Reachable chip program m) {bytes : List UInt8} {next : Machine} {count : Nat}
    (hload : m.load kind bytes = .ok (next, count)) : Reachable chip program next := by
  by_cases hdvd : kind.pieceBytes chip ∣ bytes.length
  · rw [load_of_dvd kind h.formed.chip_eq hdvd] at hload
    obtain ⟨rfl, -⟩ := Prod.mk.inj (Except.ok.inj hload)
    exact h.pokeAll _
  · rw [load_of_ragged kind h.formed.chip_eq hdvd] at hload
    cases hload

/-- An image that fills the memory takes every place. -/
theorem Reachable.load_full (h : Reachable chip program m) (hcapacity : kind.capacity chip ≤ 2 ^ 64)
    {bytes : List UInt8} (hlen : bytes.length = kind.capacity chip * kind.pieceBytes chip) :
    ∃ next, m.load kind bytes = .ok (next, kind.capacity chip) ∧ Reachable chip program next ∧
      (kind.contents next).toList =
        (Image.pieces chip (kind.pieceSize chip) bytes).map (Row.wrap chip.dataWidth) := by
  have hcount : bytes.length / kind.pieceBytes chip = kind.capacity chip := by
    rw [hlen, Nat.mul_div_cancel _ (kind.pieceBytes_pos h.formed.valid)]
  have hpieces : (Image.pieces chip (kind.pieceSize chip) bytes).length = kind.capacity chip :=
    (Image.length_pieces chip).trans hcount
  have hload := h.load_overlay kind (hlen ▸ Nat.dvd_mul_left _ _) (hcount ▸ hcapacity)
  rw [hcount] at hload
  refine ⟨_, hload, h.of_load kind hload, ?_⟩
  rw [kind.contents_replace]
  apply Image.toList_overlay
  rw [List.length_map, hpieces, h.size_contents kind]

/-! ## Loading in place -/

/-- Loading as a sequence of updates. The image is cut first, and only then one piece after the other is written. -/
def loadInPlace (kind : ImageKind) (bytes : List UInt8) : EStateM RaggedImage Machine Nat := do
  let m ← get
  let rows ← MonadExcept.ofExcept (Image.split m.chip kind (kind.pieceSize m.chip) bytes)
  (kind.writes 0 rows).forM fun p => modify fun m : Machine => m.poke p
  return rows.length

/-- Updates for the elements of a list, one after the other. -/
theorem forM_modify {α ε σ : Type} (f : α → σ → σ) (l : List α) (s : σ) :
    (l.forM fun a => modify (f a) : EStateM ε σ PUnit) s = .ok ⟨⟩ (l.foldl (fun s a => f a s) s) := by
  induction l generalizing s with
  | nil => rfl
  | cons a l ih => exact ih (f a s)

/-- **A rejected image changes nothing.** -/
theorem loadInPlace_eq (bytes : List UInt8) (m : Machine) : loadInPlace kind bytes m =
    match m.load kind bytes with
    | .ok (next, count) => .ok count next
    | .error e => .error e m := by
  rw [load_eq, loadInPlace, bind_of_ok (get_eq m)]
  cases Image.split m.chip kind (kind.pieceSize m.chip) bytes with
  | error e => rfl
  | ok rows => exact bind_of_ok (forM_modify (fun p m => m.poke p) (kind.writes 0 rows) m) _

end Machine

end Systolic
