import Systolic.Chip.Timing
import Systolic.Storage.Tile

/-!
# The weight queue

Four slots in front of the array. Slot 1 assembles bursts into a tile; complete tiles ripple one slot per cycle towards
slot 4, the front, whose tile the array programs next. A tile moves only into a slot that is empty at the start of the
cycle, never into one that is vacated during it.
-/

namespace Systolic

structure TileQueue where
  /-- The elements of slot 1, row by row. -/
  fill : Row
  /-- How many of them have arrived. -/
  filled : Nat
  second : Option Tile
  third : Option Tile
  front : Option Tile
  deriving DecidableEq

namespace TileQueue

/-- A queue of tiles of `size` rows, at power-on. -/
def empty (size : Nat) : TileQueue := ⟨.replicate (size * size) 0, 0, none, none, none⟩

variable (size : Nat) (q : TileQueue)

/-- Slot 1 holds a whole tile. -/
def full : Bool := size * size ≤ q.filled

/-- The tile of slot 1, once it is whole. -/
def first : Option Tile := if q.full size then some (.ofRow size q.fill) else none

/-- The slots, slot 1 first. -/
def slots : List (Option Tile) := [q.first size, q.second, q.third, q.front]

/-- Complete tiles held. -/
def occupancy : Nat := (q.slots size).countP (·.isSome)

/-- Slot 1 hands its tile on at the end of the cycle. -/
def drains : Bool := q.full size && q.second.isNone

/-- A slot after an edge: an empty one takes what stands `behind` it, a taken one keeps its tile unless it `leaves`. -/
def ripple (behind own : Option Tile) (leaves : Bool) : Option Tile :=
  match own with
  | none => behind
  | some t => if leaves then none else some t

/-- Append what arrives to `filled` elements, as far as a tile has room. -/
def append (fill : Row) (filled : Nat) (burst : Row) : Row :=
  let start := min filled (size * size)
  let stop := min (start + burst.length) (size * size)
  fill.take start ++ burst.take (stop - start) ++ fill.drop stop

/-- One cycle in which `burst?` arrives and, with `advance`, the array drops the front tile. Also whether a burst was
lost: slot 1 was full and could not drain. -/
def step (burst? : Option Row) (advance : Bool) : TileQueue × Bool :=
  let drains := q.drains size
  let fill := if drains then List.replicate (size * size) 0 else q.fill
  let filled := if drains then 0 else q.filled
  let overflow := burst?.isSome && q.full size && !drains
  let burst := if overflow then [] else burst?.getD []
  ({  fill := append size fill filled burst
      filled := min (filled + burst.length) (size * size)
      second := ripple (q.first size) q.second q.third.isNone
      third := ripple q.second q.third q.front.isNone
      front := ripple q.third q.front advance },
    overflow)

/-- Every register back at its power-on value. -/
def clear (q : TileQueue) : TileQueue := ⟨List.replicate q.fill.length 0, 0, none, none, none⟩

end TileQueue

end Systolic
