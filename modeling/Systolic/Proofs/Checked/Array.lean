import Systolic.Proofs.Checked.Units

/-!
# Partial operations of the array and of the queue

A site of the array keeps two weights and which of them is active; a switch makes the other one active. The sites stand
row after row in one list. The slots of the queue behind slot 1 stand in another. `Grid.mesh` and `Fifo.queue` read them
as the array and as the queue; no operation on them traps, and their cycles are those of the array and of the queue
(`Grid.tryStep_eq`, `Fifo.tryStep_eq`).
-/

namespace Systolic

open Checked

/-! ## Sites -/

structure Site where
  weights : List Word := [0, 0]
  /-- Which of the weights feeds the multiplier. -/
  active : Nat := 0
  left : Lane := {}
  sum : Word := 0
  feed : Feed := {}
  deriving DecidableEq

namespace Site

/-- The site as a cell that swaps its weights. -/
def cell (s : Site) : Cell := ⟨s.weights.getD s.active 0, s.weights.getD (1 - s.active) 0, s.left, s.sum, s.feed⟩

/-- Two weights, one of them active. -/
structure Sound (s : Site) : Prop where
  weights : s.weights.length = 2
  active : s.active < 2

variable (size accWidth : Nat) (s : Site) (left : Lane) (above : Word) (feed : Feed)

/-- The weight that is active in a cycle in which the site sees `left`. -/
def nextActive : Nat := if left.valid && left.switch then 1 - s.active else s.active

def step : Site :=
  { weights := if feed.valid && feed.tag == size - 1 then s.weights.set (1 - s.nextActive left) feed.weight
      else s.weights
    active := s.nextActive left
    left
    sum := Word.wrap accWidth (s.weights.getD (s.nextActive left) 0 * left.data + above)
    feed := { feed with tag := feed.tag + 1 } }

def tryActive : Checked Nat := if left.valid && left.switch then sub 1 s.active else return s.active

/-- The weights once the other one is programmed, if it is its turn. -/
def tryProgram (active : Nat) : Checked (List Word) := do
  let last ← sub size 1
  if feed.valid && feed.tag == last then
    let other ← sub 1 active
    put s.weights other feed.weight
  else
    return s.weights

def tryStep : Checked Site := do
  let active ← s.tryActive left
  let weight ← index s.weights[active]?
  let sum ← Word.tryWrap accWidth (weight * left.data + above)
  let weights ← s.tryProgram size feed active
  return { weights, active, left, sum, feed := { feed with tag := feed.tag + 1 } }

variable {size accWidth s}

theorem Sound.nextActive_le (h : s.Sound) : s.nextActive left ≤ 1 := by
  have := h.active
  unfold nextActive
  split
  · omega
  · omega

theorem Sound.tryActive_eq (h : s.Sound) : s.tryActive left = .ok (s.nextActive left) := by
  have := h.active
  unfold tryActive nextActive
  split
  · exact sub_eq (by omega)
  · rfl

theorem Sound.tryProgram_eq (h : s.Sound) (hsize : 0 < size) {active : Nat} (hactive : active ≤ 1) :
    s.tryProgram size feed active =
      .ok (if feed.valid && feed.tag == size - 1 then s.weights.set (1 - active) feed.weight else s.weights) := by
  have hother : 1 - active < s.weights.length := by
    rw [h.weights]
    omega
  simp only [tryProgram, sub_eq hsize, sub_eq hactive, put_eq hother, ok_bind, pure_eq_ok]
  split
  · rfl
  · rfl

theorem Sound.tryStep_eq (h : s.Sound) (hsize : 0 < size)
    (hwrap : ∀ v, Word.tryWrap accWidth v = .ok (Word.wrap accWidth v)) :
    s.tryStep size accWidth left above feed = .ok (s.step size accWidth left above feed) := by
  have hle := h.nextActive_le left
  have hlt : s.nextActive left < s.weights.length := by
    rw [h.weights]
    omega
  simp only [tryStep, h.tryActive_eq, index_getD hlt 0, hwrap, h.tryProgram_eq feed hsize hle, ok_bind, pure_eq_ok,
    step]

theorem Sound.step (h : s.Sound) : (s.step size accWidth left above feed).Sound := by
  constructor
  · dsimp only [Site.step]
    split
    · rw [List.length_set]
      exact h.weights
    · exact h.weights
  · exact Nat.lt_succ_of_le (h.nextActive_le left)

/-- Making the other weight active is swapping the two. -/
theorem Sound.cell_step (h : s.Sound) :
    (s.step size accWidth left above feed).cell = s.cell.step size accWidth left above feed := by
  obtain ⟨weights, active, _, _, _⟩ := s
  obtain ⟨hweights, hactive⟩ := h
  obtain ⟨a, b, rfl⟩ := List.length_eq_two.1 hweights
  -- The index points at the first weight or at the second; the cell holds the pair with the active one in front.
  have hcases : active = 0 ∨ active = 1 := by
    have : active < 2 := hactive
    omega
  rcases hcases with rfl | rfl
  · cases hs : left.valid && left.switch <;> cases hf : feed.valid && feed.tag == size - 1 <;>
      simp [Site.step, Cell.step, cell, nextActive, hs, hf]
  · cases hs : left.valid && left.switch <;> cases hf : feed.valid && feed.tag == size - 1 <;>
      simp [Site.step, Cell.step, cell, nextActive, hs, hf]

theorem sound_default : Sound {} := ⟨rfl, by decide⟩

end Site

/-! ## The sites of the array -/

/-- Rows of one width, one after the other: where the elements stand. -/
theorem getElem?_flatten_of_length {α : Type} {n : Nat} {rows : List (List α)} (h : ∀ row ∈ rows, row.length = n)
    (r : Nat) {c : Nat} (hc : c < n) : rows.flatten[r * n + c]? = rows[r]?.bind (·[c]?) := by
  induction rows generalizing r with
  | nil => simp
  | cons row rows ih =>
    have hrow := h row List.mem_cons_self
    rw [List.flatten_cons]
    cases r with
    | zero =>
      rw [Nat.zero_mul, Nat.zero_add, List.getElem?_append_left (by omega)]
      rfl
    | succ r =>
      have hindex : (r + 1) * n + c = row.length + (r * n + c) := by
        rw [Nat.succ_mul, hrow]
        omega
      rw [hindex, List.getElem?_append_right (Nat.le_add_right _ _), Nat.add_sub_cancel_left,
        ih (fun row hmem => h row (List.mem_cons_of_mem _ hmem)) r, List.getElem?_cons_succ]

/-- A loop over the elements of a row, as a loop over the positions. -/
theorem map_eq_map_range {β : Type} (row : Row) (f : Word → β) :
    row.map f = (List.range row.length).map fun i => f (row.getD i 0) := by
  apply List.ext_getElem?
  intro i
  rw [List.getElem?_map, List.getElem?_map]
  by_cases hi : i < row.length
  · simp [hi]
  · simp [hi]

def Tile.tryRow (t : Tile) (row : Nat) : Checked Row := slice t.cells (row * t.size) ((row + 1) * t.size)

theorem Tile.tryRow_eq {t : Tile} (ht : t.cells.length = t.size * t.size) {row : Nat} (hrow : row < t.size) :
    t.tryRow row = .ok (t.row row) := by
  have hstop : (row + 1) * t.size ≤ t.size * t.size := Nat.mul_le_mul_right _ hrow
  have hstart : row * t.size + t.size = (row + 1) * t.size := (Nat.succ_mul row t.size).symm
  rw [tryRow, slice_eq (by omega) (by omega), Tile.row]
  apply congrArg Except.ok
  congr 1
  omega

structure Grid where
  /-- Row by row. -/
  sites : List Site
  top : List (DelayLine Feed)
  programming : Option Nat
  loaded : Bool
  deriving DecidableEq

namespace Grid

def idle (size : Nat) : Grid :=
  { sites := List.replicate (size * size) {}
    top := (List.range size).map fun c => .idle c
    programming := none
    loaded := false }

/-- Every register back at its power-on value. -/
def clear (grid : Grid) : Grid :=
  { sites := grid.sites.map fun _ => {}
    top := grid.top.map .clear
    programming := none
    loaded := false }

variable (size : Nat) (grid : Grid)

def site (row column : Nat) : Site := grid.sites.getD (row * size + column) {}

/-- The sites as an array of cells. -/
def mesh : Mesh :=
  { cells := (List.range size).map fun r => (List.range size).map fun c => (grid.site size r c).cell
    top := grid.top
    programming := grid.programming
    loaded := grid.loaded }

/-- A site for each cell. -/
structure Sound : Prop where
  count : grid.sites.length = size * size
  sites : ∀ s ∈ grid.sites, s.Sound

def trySite (row column : Nat) : Checked Site := index grid.sites[row * size + column]?

/-- What the site in row `r` and column `c` is in the next cycle. -/
def nextSite (accWidth : Nat) (lanes : List Lane) (feeds : List Feed) (r c : Nat) : Site :=
  (grid.site size r c).step size accWidth
    (if c = 0 then lanes.getD r {} else (grid.site size r (c - 1)).left)
    (if r = 0 then 0 else (grid.site size (r - 1) c).sum)
    (if r = 0 then feeds.getD c {} else (grid.site size (r - 1) c).feed)

def tryLeft (lanes : List Lane) (r c : Nat) : Checked Lane := do
  if c = 0 then
    index lanes[r]?
  else
    let before ← sub c 1
    let neighbour ← grid.trySite size r before
    return neighbour.left

def tryAbove (r c : Nat) : Checked Word := do
  if r = 0 then
    return 0
  let upper ← sub r 1
  let neighbour ← grid.trySite size upper c
  return neighbour.sum

def tryFeed (feeds : List Feed) (r c : Nat) : Checked Feed := do
  if r = 0 then
    index feeds[c]?
  else
    let upper ← sub r 1
    let neighbour ← grid.trySite size upper c
    return neighbour.feed

def tryNext (accWidth : Nat) (lanes : List Lane) (feeds : List Feed) (r c : Nat) : Checked Site := do
  let site ← grid.trySite size r c
  let left ← grid.tryLeft size lanes r c
  let above ← grid.tryAbove size r c
  let feed ← grid.tryFeed size feeds r c
  site.tryStep size accWidth left above feed

/-- What is broadcast along the top edge. -/
def tryBroadcast (front? : Option Tile) : Checked (List Feed) := do
  match grid.programming, front? with
  | some k, some tile =>
    let last ← sub size 1
    let row ← sub last k
    let weights ← tile.tryRow row
    return weights.map fun weight => ⟨weight, k, true⟩
  | _, _ => return List.replicate size {}

/-- The sum that leaves the array in column `c`. -/
def trySum (c : Nat) : Checked Word := do
  let last ← sub size 1
  let site ← grid.trySite size last c
  return site.sum

/-- The step of the programming window, whether a tile is staged, and whether the front tile has been broadcast whole. -/
def window (switching front : Bool) : Option Nat × Bool × Bool :=
  let loaded := grid.loaded && !switching
  match grid.programming with
  | some k => if k + 1 = size then (none, true, true) else (some (k + 1), loaded, false)
  | none => if !loaded && front then (some 0, false, false) else (none, loaded, false)

/-- What is wrong with the switch, if there is one. -/
def hazard? (switching : Bool) : Option Hazard :=
  if switching then
    if grid.programming.isSome then some .switchDuringLoad
    else if grid.loaded then none else some .switchWithoutWeights
  else none

/-- The sites of the next cycle, row by row. -/
def trySites (accWidth : Nat) (lanes : List Lane) (feeds : List Feed) : Checked (List Site) := do
  let rows ← (List.range size).mapM fun r => (List.range size).mapM (grid.tryNext size accWidth lanes feeds r)
  return rows.flatten

/-- The lines along the top edge, each with its part of the broadcast. -/
def tryTop (broadcast : List Feed) : Checked (List (DelayLine Feed)) :=
  (grid.top.zip broadcast).mapM fun (line, feed) => line.tryShift feed

def tryStep (chip : Chip) (lanes : List Lane) (front? : Option Tile) : Checked (Grid × Mesh.Output) := do
  let sums ← (List.range chip.size).mapM (grid.trySum chip.size)
  let entry ← index lanes[0]?
  let switching := entry.valid && entry.switch
  let broadcast ← grid.tryBroadcast chip.size front?
  let feeds := List.zipWith DelayLine.output grid.top broadcast
  let sites ← grid.trySites chip.size chip.accWidth lanes feeds
  let (programming, loaded, advance) := grid.window chip.size switching front?.isSome
  let top ← grid.tryTop broadcast
  return ({ sites, top, programming, loaded }, { sums, advance, hazard := grid.hazard? switching })

variable {size grid}

theorem sound_idle (size : Nat) : (idle size).Sound size := by
  constructor
  · simp [idle]
  · intro s hs
    rw [List.eq_of_mem_replicate hs]
    exact Site.sound_default

theorem Sound.clear (h : grid.Sound size) : grid.clear.Sound size := by
  constructor
  · simp [Grid.clear, h.count]
  · intro s hs
    obtain ⟨s, -, rfl⟩ := List.mem_map.1 hs
    exact Site.sound_default

theorem lt_of_lt {r c : Nat} (hr : r < size) (hc : c < size) : r * size + c < size * size := by
  have hle : (r + 1) * size ≤ size * size := Nat.mul_le_mul_right _ hr
  rw [Nat.succ_mul] at hle
  omega

section Sound

variable (h : grid.Sound size) {r c : Nat} (hr : r < size) (hc : c < size)
include h hr hc

theorem Sound.trySite_eq : grid.trySite size r c = .ok (grid.site size r c) := by
  apply index_getD
  rw [h.count]
  exact lt_of_lt hr hc

theorem Sound.site : (grid.site size r c).Sound := by
  have hlt : r * size + c < grid.sites.length := by
    rw [h.count]
    exact lt_of_lt hr hc
  rw [Grid.site, List.getD_eq_getElem _ _ hlt]
  exact h.sites _ (List.getElem_mem hlt)

omit h in
theorem cell_mesh : (grid.mesh size).cell r c = (grid.site size r c).cell := by
  simp [Mesh.cell, mesh, hr, hc]

theorem Sound.tryNext_eq {accWidth : Nat} (hwrap : ∀ v, Word.tryWrap accWidth v = .ok (Word.wrap accWidth v))
    {lanes : List Lane} (hlanes : lanes.length = size) {feeds : List Feed} (hfeeds : feeds.length = size) :
    grid.tryNext size accWidth lanes feeds r c = .ok (grid.nextSite size accWidth lanes feeds r c) := by
  have hleft : grid.tryLeft size lanes r c =
      .ok (if c = 0 then lanes.getD r {} else (grid.site size r (c - 1)).left) := by
    unfold tryLeft
    split
    · exact index_getD (by omega) _
    · rw [sub_eq (by omega), ok_bind, h.trySite_eq hr (by omega)]
      rfl
  have habove : grid.tryAbove size r c = .ok (if r = 0 then 0 else (grid.site size (r - 1) c).sum) := by
    unfold tryAbove
    split
    · rfl
    · rw [sub_eq (by omega), ok_bind, h.trySite_eq (by omega) hc]
      rfl
  have hfeed : grid.tryFeed size feeds r c =
      .ok (if r = 0 then feeds.getD c {} else (grid.site size (r - 1) c).feed) := by
    unfold tryFeed
    split
    · exact index_getD (by omega) _
    · rw [sub_eq (by omega), ok_bind, h.trySite_eq (by omega) hc]
      rfl
  rw [tryNext, h.trySite_eq hr hc, ok_bind, hleft, ok_bind, habove, ok_bind, hfeed, ok_bind,
    (h.site hr hc).tryStep_eq _ _ _ (by omega) hwrap]
  rfl

end Sound

/-! ### One cycle -/

theorem Sound.mapM_trySum (h : grid.Sound size) (hsize : 0 < size) : (List.range size).mapM (grid.trySum size) =
    .ok ((List.range size).map fun c => ((grid.mesh size).cell (size - 1) c).sum) := by
  apply mapM_ok
  intro c hc
  rw [List.mem_range] at hc
  rw [trySum, sub_eq hsize, ok_bind, h.trySite_eq (by omega) hc, cell_mesh (by omega) hc]
  rfl

/-- Step `k` broadcasts row `N - 1 - k` of the front tile. -/
theorem tryBroadcast_eq (hprogramming : ∀ k, grid.programming = some k → k < size) {front? : Option Tile}
    (hfront : ∀ t, front? = some t → t.size = size ∧ t.cells.length = size * size) :
    grid.tryBroadcast size front? = .ok ((List.range size).map ((grid.mesh size).broadcast size front?)) := by
  have hdefault : List.replicate size ({} : Feed) = (List.range size).map fun _ => {} := by
    rw [List.map_const', List.length_range]
  have hnone : ∀ programming? : Option Nat, programming? = none ∨ front? = none → grid.programming = programming? →
      List.replicate size ({} : Feed) = (List.range size).map ((grid.mesh size).broadcast size front?) := by
    intro programming? hcases hp
    rw [hdefault]
    apply List.map_congr_left
    intro c _
    rcases hcases with rfl | rfl
    · simp [Mesh.broadcast, mesh, hp]
    · simp [Mesh.broadcast, mesh]
  unfold tryBroadcast
  cases hp : grid.programming with
  | none => rw [pure_eq_ok, hnone none (Or.inl rfl) hp]
  | some k =>
    cases front? with
    | none => rw [pure_eq_ok, hnone _ (Or.inr rfl) hp]
    | some tile =>
      have hk := hprogramming k hp
      obtain ⟨rfl, hcells⟩ := hfront tile rfl
      have hrow : (tile.row (tile.size - 1 - k)).length = tile.size := by
        have hle : (tile.size - 1 - k + 1) * tile.size ≤ tile.size * tile.size := Nat.mul_le_mul_right _ (by omega)
        rw [Nat.succ_mul] at hle
        rw [Tile.row, List.length_take, List.length_drop]
        omega
      dsimp only
      rw [sub_eq (by omega), ok_bind, sub_eq (by omega), ok_bind, Tile.tryRow_eq hcells (by omega), ok_bind,
        map_eq_map_range, hrow, pure_eq_ok]
      apply congrArg Except.ok
      apply List.map_congr_left
      intro c _
      simp [Mesh.broadcast, mesh, hp]

/-- The feed that arrives at the top of column `c`. -/
theorem getD_feeds (htop : grid.top.length = size) (f : Nat → Feed) {c : Nat} (hc : c < size) :
    (List.zipWith DelayLine.output grid.top ((List.range size).map f)).getD c {} =
      (grid.top.getD c ⟨[]⟩).output (f c) := by
  have hlt : c < grid.top.length := by omega
  simp [hlt, hc]

theorem tryTop_eq (htop : grid.top.length = size) (f : Nat → Feed) :
    grid.tryTop ((List.range size).map f) = .ok (grid.top.mapIdx fun c line => line.shift (f c)) := by
  have hlines : grid.top.mapIdx (fun c line => line.shift (f c)) =
      (grid.top.zip ((List.range size).map f)).map fun (line, feed) => line.shift feed := by
    apply List.ext_getElem
    · simp [htop]
    · intro c _ _
      simp
  rw [tryTop, hlines]
  apply mapM_ok
  intro a _
  exact DelayLine.tryShift_eq _ _

theorem Sound.trySites_eq (h : grid.Sound size) {accWidth : Nat}
    (hwrap : ∀ v, Word.tryWrap accWidth v = .ok (Word.wrap accWidth v)) {lanes : List Lane}
    (hlanes : lanes.length = size) {feeds : List Feed} (hfeeds : feeds.length = size) :
    grid.trySites size accWidth lanes feeds =
      .ok ((List.range size).map fun r => (List.range size).map (grid.nextSite size accWidth lanes feeds r)).flatten := by
  have hrows : ((List.range size).mapM fun r => (List.range size).mapM (grid.tryNext size accWidth lanes feeds r)) =
      .ok ((List.range size).map fun r => (List.range size).map (grid.nextSite size accWidth lanes feeds r)) := by
    apply mapM_ok
    intro r hr
    apply mapM_ok
    intro c hc
    exact h.tryNext_eq (List.mem_range.1 hr) (List.mem_range.1 hc) hwrap hlanes hfeeds
  rw [trySites, hrows]
  rfl

/-- The cell that the site in row `r` and column `c` stands for in the next cycle. -/
theorem Sound.cell_nextSite (h : grid.Sound size) (htop : grid.top.length = size) (accWidth : Nat) (lanes : List Lane)
    (front? : Option Tile) {r c : Nat} (hr : r < size) (hc : c < size) :
    (grid.nextSite size accWidth lanes (List.zipWith DelayLine.output grid.top
      ((List.range size).map ((grid.mesh size).broadcast size front?))) r c).cell =
    ((grid.mesh size).cell r c).step size accWidth
      (if c = 0 then lanes.getD r {} else ((grid.mesh size).cell r (c - 1)).left)
      (if r = 0 then 0 else ((grid.mesh size).cell (r - 1) c).sum)
      (if r = 0 then ((grid.mesh size).top.getD c ⟨[]⟩).output ((grid.mesh size).broadcast size front? c)
        else ((grid.mesh size).cell (r - 1) c).feed) := by
  rw [nextSite, (h.site hr hc).cell_step, getD_feeds htop _ hc, cell_mesh hr hc, cell_mesh hr (by omega),
    cell_mesh (by omega) hc]
  rfl

/-- The sites of the next cycle, row after row, stand for the cells of the next cycle. -/
theorem mesh_of_rows {f : Nat → Nat → Site} {cells : Nat → Nat → Cell} (top : List (DelayLine Feed))
    (programming : Option Nat) (loaded : Bool) (h : ∀ r < size, ∀ c < size, (f r c).cell = cells r c) :
    mesh size ⟨((List.range size).map fun r => (List.range size).map (f r)).flatten, top, programming, loaded⟩ =
      ⟨(List.range size).map fun r => (List.range size).map (cells r), top, programming, loaded⟩ := by
  have hrows : ∀ row ∈ (List.range size).map fun r => (List.range size).map (f r), row.length = size := by
    intro row hrow
    obtain ⟨r, -, rfl⟩ := List.mem_map.1 hrow
    rw [List.length_map, List.length_range]
  rw [mesh, Mesh.mk.injEq]
  refine ⟨?_, rfl, rfl, rfl⟩
  apply List.map_congr_left
  intro r hr
  apply List.map_congr_left
  intro c hc
  rw [List.mem_range] at hr hc
  rw [← h r hr c hc, Grid.site, List.getD_eq_getElem?_getD, getElem?_flatten_of_length hrows r hc]
  simp [hr, hc]

theorem sound_of_rows {f : Nat → Nat → Site} (top : List (DelayLine Feed)) (programming : Option Nat) (loaded : Bool)
    (h : ∀ r < size, ∀ c < size, (f r c).Sound) :
    Sound size ⟨((List.range size).map fun r => (List.range size).map (f r)).flatten, top, programming, loaded⟩ := by
  constructor
  · simp [List.length_flatten, Function.comp_def]
  · intro s hs
    obtain ⟨row, hrow, hs⟩ := List.mem_flatten.1 hs
    obtain ⟨r, hr, rfl⟩ := List.mem_map.1 hrow
    obtain ⟨c, hc, rfl⟩ := List.mem_map.1 hs
    exact h r (List.mem_range.1 hr) c (List.mem_range.1 hc)

/-- The window moves on as that of the array does. -/
theorem window_eq (lanes : List Lane) (front? : Option Tile) :
    grid.window size (Mesh.switching lanes) front?.isSome =
      (((grid.mesh size).nextProgramming size lanes front?).1, ((grid.mesh size).nextProgramming size lanes front?).2,
        (grid.mesh size).advance size) := by
  have hprogramming : (grid.mesh size).programming = grid.programming := rfl
  have hloaded : (grid.mesh size).loaded = grid.loaded := rfl
  rw [window, Mesh.nextProgramming, Mesh.advance, hprogramming, hloaded]
  cases grid.programming with
  | none =>
    dsimp only
    split
    · rfl
    · rfl
  | some k =>
    dsimp only
    split
    · simp [*]
    · simp [*]

/-- No cycle of the array traps, and the sites go through the cycle of the cells. -/
theorem tryStep_eq {chip : Chip} (hvalid : chip.Valid) (h : grid.Sound chip.size) (htop : grid.top.length = chip.size)
    (hprogramming : ∀ k, grid.programming = some k → k < chip.size) {lanes : List Lane}
    (hlanes : lanes.length = chip.size) {front? : Option Tile}
    (hfront : ∀ t, front? = some t → t.size = chip.size ∧ t.cells.length = chip.size * chip.size) :
    ∃ next, grid.tryStep chip lanes front? = .ok (next, ((grid.mesh chip.size).step chip lanes front?).2) ∧
      next.Sound chip.size ∧ next.mesh chip.size = ((grid.mesh chip.size).step chip lanes front?).1 := by
  have hsize := hvalid.size_pos
  have hentry : index lanes[0]? = .ok (lanes.getD 0 {}) := index_getD (by omega) _
  have hswitching : ((lanes.getD 0 {}).valid && (lanes.getD 0 {}).switch) = Mesh.switching lanes := rfl
  have hfeeds : (List.zipWith DelayLine.output grid.top
      ((List.range chip.size).map ((grid.mesh chip.size).broadcast chip.size front?))).length = chip.size := by
    simp [htop]
  rw [tryStep, h.mapM_trySum hsize, ok_bind, hentry, ok_bind]
  dsimp only
  rw [tryBroadcast_eq hprogramming hfront, ok_bind, h.trySites_eq hvalid.tryWrap_acc hlanes hfeeds, ok_bind,
    tryTop_eq htop, ok_bind, hswitching, window_eq]
  refine ⟨_, rfl, ?_, ?_⟩
  · apply sound_of_rows
    intro r hr c hc
    exact (h.site hr hc).step _ _ _
  · apply mesh_of_rows
    intro r hr c hc
    exact h.cell_nextSite htop chip.accWidth lanes front? hr hc

/-! ### Power-on and reset -/

theorem site_idle (size r c : Nat) : (idle size).site size r c = {} := by
  rw [Grid.site, idle, List.getD_eq_getElem?_getD, List.getElem?_replicate]
  split
  · rfl
  · rfl

theorem mesh_idle (size : Nat) : (idle size).mesh size = .idle size := by
  simp only [mesh, site_idle, List.map_const', List.length_range]
  rfl

theorem site_clear (r c : Nat) : grid.clear.site size r c = {} := by
  rw [Grid.site, Grid.clear, List.getD_eq_getElem?_getD, List.getElem?_map]
  cases grid.sites[r * size + c]? with
  | none => rfl
  | some s => rfl

theorem mesh_clear : grid.clear.mesh size = (grid.mesh size).clear := by
  simp only [mesh, site_clear, Mesh.clear, List.map_map, Function.comp_def, List.map_const', List.length_map,
    List.length_range]
  rfl

end Grid

/-! ## The slots of the queue -/

structure Fifo where
  fill : Row
  filled : Nat
  /-- Slots 2 to 4, the front last. -/
  stages : List (Option Tile)
  deriving DecidableEq

namespace Fifo

def empty (size : Nat) : Fifo := ⟨.replicate (size * size) 0, 0, List.replicate (queueDepth - 1) none⟩

/-- Every register back at its power-on value. -/
def clear (q : Fifo) : Fifo := ⟨List.replicate q.fill.length 0, 0, q.stages.map fun _ => none⟩

variable (size : Nat) (q : Fifo)

def queue : TileQueue := ⟨q.fill, q.filled, q.stages.getD 0 none, q.stages.getD 1 none, q.stages.getD 2 none⟩

/-- The tile in the last stage. -/
def front? : Option Tile := q.stages.getLast?.join

/-- Slot 1 holds a whole tile. -/
def full : Bool := size * size ≤ q.filled

/-- Move the tile of stage `i` on, if there is one and the stage ahead is empty. -/
def tryMove (next : List (Option Tile)) (i : Nat) : Checked (List (Option Tile)) := do
  let own ← index q.stages[i]?
  if own.isSome then
    let ahead ← index q.stages[i + 1]?
    if ahead.isNone then
      let next ← put next (i + 1) own
      put next i none
    else
      return next
  else
    return next

/-- The stages after the moves of a cycle, the frontmost move first. -/
def tryRipple (advance : Bool) : Checked (List (Option Tile)) := do
  let front ← sub q.stages.length 1
  let next ← if advance then put q.stages front none else pure q.stages
  (List.range front).reverse.foldlM q.tryMove next

def tryDrains : Checked Bool := do
  if q.full size then
    let second ← index q.stages[0]?
    return second.isNone
  else
    return false

/-- What arrives behind `filled` elements, as far as a tile has room. -/
def tryAppend (fill : Row) (filled : Nat) (burst : Row) : Checked Row := do
  let start := min filled (size * size)
  let stop := min (start + burst.length) (size * size)
  let count ← sub stop start
  let part ← slice burst 0 count
  splice fill start stop part

/-- The stages once slot 1 has handed its tile on. -/
def tryDrain (rippled : List (Option Tile)) (drains : Bool) : Checked (List (Option Tile)) :=
  if drains then put rippled 0 (some (.ofRow size q.fill)) else return rippled

/-- Slot 1 after what arrives, and whether that was lost. -/
def tryReceive (fill : Row) (filled : Nat) (blocked : Bool) : Option Row → Checked (Row × Nat × Bool)
  | none => return (fill, filled, false)
  | some burst => do
    if blocked then
      return (fill, filled, true)
    let fill ← tryAppend size fill filled burst
    return (fill, min (filled + burst.length) (size * size), false)

def tryStep (burst? : Option Row) (advance : Bool) : Checked (Fifo × Bool) := do
  let rippled ← q.tryRipple advance
  let drains ← q.tryDrains size
  let stages ← q.tryDrain size rippled drains
  let fill := if drains then List.replicate (size * size) 0 else q.fill
  let filled := if drains then 0 else q.filled
  let (fill, filled, overflow) ← tryReceive size fill filled (q.full size && !drains) burst?
  return (⟨fill, filled, stages⟩, overflow)

/-- A stage for each slot behind slot 1. -/
def Sound : Prop := q.stages.length = 3

variable {size q}

theorem sound_empty (size : Nat) : (empty size).Sound := rfl

theorem Sound.clear (h : q.Sound) : q.clear.Sound := by
  rw [Sound, Fifo.clear, List.length_map]
  exact h

theorem queue_empty (size : Nat) : (empty size).queue = .empty size := rfl

theorem Sound.stages_eq (h : q.Sound) : q.stages = [q.queue.second, q.queue.third, q.queue.front] := by
  obtain ⟨a, b, c, habc⟩ := List.length_eq_three.1 h
  simp [queue, habc]

theorem Sound.front?_eq (h : q.Sound) : q.front? = q.queue.front := by
  rw [front?, h.stages_eq]
  rfl

theorem Sound.queue_clear (h : q.Sound) : q.clear.queue = q.queue.clear := by
  obtain ⟨a, b, c, habc⟩ := List.length_eq_three.1 h
  simp [queue, Fifo.clear, TileQueue.clear, habc]

/-- The stages move as the slots do; the second slot stays empty for what slot 1 hands on. -/
theorem Sound.tryRipple_eq (h : q.Sound) (advance : Bool) :
    q.tryRipple advance = .ok [TileQueue.ripple none q.queue.second q.queue.third.isNone,
      TileQueue.ripple q.queue.second q.queue.third q.queue.front.isNone,
      TileQueue.ripple q.queue.third q.queue.front advance] := by
  obtain ⟨fill, filled, stages⟩ := q
  obtain ⟨second, third, front, rfl⟩ := List.length_eq_three.1 h
  -- Which moves are made depends only on which slots are taken.
  cases second <;> cases third <;> cases front <;> cases advance <;> rfl

theorem Sound.tryDrains_eq (h : q.Sound) : q.tryDrains size = .ok (q.queue.drains size) := by
  rw [tryDrains, h.stages_eq]
  unfold TileQueue.drains
  cases hfull : q.full size with
  | true =>
    have hqueue : q.queue.full size = true := hfull
    rw [hqueue]
    rfl
  | false =>
    have hqueue : q.queue.full size = false := hfull
    rw [hqueue]
    rfl

/-- What a burst brings goes in between what stands and what follows. -/
theorem tryAppend_eq {fill : Row} (hfill : fill.length = size * size) (filled : Nat) (burst : Row) :
    tryAppend size fill filled burst = .ok (TileQueue.append size fill filled burst) := by
  have hcount : sub (min (min filled (size * size) + burst.length) (size * size)) (min filled (size * size)) =
      .ok (min (min filled (size * size) + burst.length) (size * size) - min filled (size * size)) := sub_eq (by omega)
  unfold tryAppend TileQueue.append
  dsimp only
  rw [hcount, ok_bind, slice_eq (Nat.zero_le _) (by omega), ok_bind, splice_eq (by omega) (by omega)]
  · rfl
  · simp
    omega

theorem tryReceive_eq {fill : Row} (hfill : fill.length = size * size) {filled : Nat} (hfilled : filled ≤ size * size)
    (blocked : Bool) (burst? : Option Row) :
    tryReceive size fill filled blocked burst? =
      .ok (TileQueue.append size fill filled (if burst?.isSome && blocked then [] else burst?.getD []),
        min (filled + (if burst?.isSome && blocked then [] else burst?.getD []).length) (size * size),
        burst?.isSome && blocked) := by
  have hnothing : TileQueue.append size fill filled [] = fill := by simp [TileQueue.append]
  cases burst? with
  | none => simp [tryReceive, hnothing, hfilled]
  | some burst =>
    cases blocked with
    | true => simp [tryReceive, hnothing, hfilled]
    | false => simp [tryReceive, tryAppend_eq hfill]

/-- The tile of slot 1 goes where the moves have left a gap for it. -/
theorem tryDrain_eq (third front : Option Tile) :
    q.tryDrain size [TileQueue.ripple none q.queue.second q.queue.third.isNone, third, front] (q.queue.drains size) =
      .ok [TileQueue.ripple (q.queue.first size) q.queue.second q.queue.third.isNone, third, front] := by
  unfold tryDrain TileQueue.drains TileQueue.first
  cases q.queue.full size <;> cases q.queue.second <;> rfl

/-- No cycle of the queue traps, and the stages go through the cycle of the slots. -/
theorem Sound.tryStep_eq (h : q.Sound) (hfill : q.fill.length = size * size) (hfilled : q.filled ≤ size * size)
    (burst? : Option Row) (advance : Bool) :
    ∃ next, q.tryStep size burst? advance = .ok (next, (q.queue.step size burst? advance).2) ∧ next.Sound ∧
      next.queue = (q.queue.step size burst? advance).1 := by
  have hfill' : (if q.queue.drains size then List.replicate (size * size) 0 else q.fill).length = size * size := by
    split
    · exact List.length_replicate
    · exact hfill
  have hfilled' : (if q.queue.drains size then 0 else q.filled) ≤ size * size := by
    split
    · exact Nat.zero_le _
    · exact hfilled
  have hblocked : (burst?.isSome && (q.full size && !q.queue.drains size)) =
      (q.queue.step size burst? advance).2 := (Bool.and_assoc _ _ _).symm
  rw [tryStep, h.tryRipple_eq, ok_bind, h.tryDrains_eq, ok_bind, tryDrain_eq, ok_bind]
  dsimp only
  rw [tryReceive_eq hfill' hfilled', hblocked]
  exact ⟨_, rfl, rfl, rfl⟩

end Fifo

end Systolic
