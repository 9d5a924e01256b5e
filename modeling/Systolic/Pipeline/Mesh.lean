import Systolic.Chip.Basic
import Systolic.Clocked.DelayLine
import Systolic.Pipeline.Signal
import Systolic.Storage.Tile

/-!
# The array

`N × N` multiply-accumulate cells that hold their weights. Rows enter on the left, already skewed, and move one cell to
the right per cycle; partial sums move one cell down per cycle and leave at the bottom.

Every cell has two weights: the current one feeds the multiplier while the staged one is programmed in the background. A
switch bit that travels with the data exchanges them cell by cell, so that new weights take effect exactly on the
wavefront that carries the switch.

Programming a tile takes `N` steps. Step `k` broadcasts row `N - 1 - k` of the tile along the top edge, column `c`
delayed by `c` cycles, and every cell hands the weight on downwards. The feed counts the cells that it passes, from `k`
on, and the cell that sees the count `N - 1` keeps the weight: the row settles where it belongs.
-/

namespace Systolic

/-- A weight on its way down a column. -/
structure Feed where
  weight : Word := 0
  /-- The programming step plus the cells passed. -/
  tag : Nat := 0
  valid : Bool := false
  deriving DecidableEq

instance : Inhabited Feed := ⟨{}⟩

structure Cell where
  /-- The weight that feeds the multiplier. -/
  current : Word := 0
  /-- The weight that the next switch brings in. -/
  staged : Word := 0
  /-- The element last seen, for the right neighbour. -/
  left : Lane := {}
  /-- The partial sum, for the neighbour below. -/
  sum : Word := 0
  /-- The feed last seen, for the neighbour below. -/
  feed : Feed := {}
  deriving DecidableEq

/-- One cycle of a cell that sees `left`, `above` and `feed`. -/
def Cell.step (size accWidth : Nat) (cell : Cell) (left : Lane) (above : Word) (feed : Feed) : Cell :=
  let switching := left.valid && left.switch
  let current := if switching then cell.staged else cell.current
  let staged := if switching then cell.current else cell.staged
  { current
    staged := if feed.valid && feed.tag == size - 1 then feed.weight else staged
    left
    sum := Word.wrap accWidth (current * left.data + above)
    feed := { feed with tag := feed.tag + 1 } }

structure Mesh where
  /-- Row by row. -/
  cells : List (List Cell)
  /-- Line `c` delays the broadcast to column `c` by `c` cycles. -/
  top : List (DelayLine Feed)
  /-- The running programming step. -/
  programming : Option Nat
  /-- The staged weights are a whole tile that waits for a switch. -/
  loaded : Bool
  deriving DecidableEq

namespace Mesh

/-- What leaves the array in a cycle. -/
structure Output where
  /-- The partial sums at the bottom, one for each column. -/
  sums : Row
  /-- The front tile has been broadcast whole: the queue may drop it. -/
  advance : Bool
  hazard : Option Hazard
  deriving DecidableEq

/-- An array of `size` rows at power-on. -/
def idle (size : Nat) : Mesh :=
  { cells := List.replicate size (List.replicate size {})
    top := (List.range size).map fun c => .idle c
    programming := none
    loaded := false }

variable (mesh : Mesh)

def cell (row column : Nat) : Cell := (mesh.cells.getD row []).getD column {}

/-- The weights that feed the multipliers, row by row. -/
def current : List Row := mesh.cells.map (·.map (·.current))

/-- The weights that the next switch brings in, row by row. -/
def staged : List Row := mesh.cells.map (·.map (·.staged))

/-- A switch enters the array. -/
def switching (lanes : List Lane) : Bool :=
  let entry := lanes.getD 0 {}
  entry.valid && entry.switch

/-- What is wrong with a switch that enters now. -/
def hazard? (lanes : List Lane) : Option Hazard :=
  if switching lanes then
    if mesh.programming.isSome then some .switchDuringLoad
    else if mesh.loaded then none else some .switchWithoutWeights
  else none

/-- What is broadcast to column `c` in this cycle. -/
def broadcast (size : Nat) (front? : Option Tile) (c : Nat) : Feed :=
  match mesh.programming, front? with
  | some k, some tile => ⟨(tile.row (size - 1 - k)).getD c 0, k, true⟩
  | _, _ => {}

/-- The step of a programming window and the staged tile after this cycle. A window opens when nothing is staged and a
tile has reached the front; a switch takes the staged tile away. -/
def nextProgramming (size : Nat) (lanes : List Lane) (front? : Option Tile) : Option Nat × Bool :=
  let loaded := mesh.loaded && !switching lanes
  match mesh.programming with
  | some k => if k + 1 = size then (none, true) else (some (k + 1), loaded)
  | none => if !loaded && front?.isSome then (some 0, false) else (none, loaded)

/-- The front tile has been broadcast whole with this cycle. -/
def advance (size : Nat) : Bool := mesh.programming.any (· + 1 == size)

/-- One cycle of the cells. -/
def nextCells (size accWidth : Nat) (lanes : List Lane) (front? : Option Tile) : List (List Cell) :=
  (List.range size).map fun r => (List.range size).map fun c =>
    (mesh.cell r c).step size accWidth
      (if c = 0 then lanes.getD r {} else (mesh.cell r (c - 1)).left)
      (if r = 0 then 0 else (mesh.cell (r - 1) c).sum)
      (if r = 0 then (mesh.top.getD c ⟨[]⟩).output (mesh.broadcast size front? c) else (mesh.cell (r - 1) c).feed)

/-- One cycle: `lanes` enter on the left, and `front?` is the tile at the front of the queue. -/
def step (chip : Chip) (lanes : List Lane) (front? : Option Tile) : Mesh × Output :=
  let (programming, loaded) := mesh.nextProgramming chip.size lanes front?
  ({  cells := mesh.nextCells chip.size chip.accWidth lanes front?
      top := mesh.top.mapIdx fun c line => line.shift (mesh.broadcast chip.size front? c)
      programming
      loaded },
    { sums := (List.range chip.size).map fun c => (mesh.cell (chip.size - 1) c).sum
      advance := mesh.advance chip.size
      hazard := mesh.hazard? lanes })

/-- Every register back at its power-on value. -/
def clear : Mesh :=
  { cells := mesh.cells.map (·.map fun _ => {})
    top := mesh.top.map .clear
    programming := none
    loaded := false }

end Mesh

end Systolic
