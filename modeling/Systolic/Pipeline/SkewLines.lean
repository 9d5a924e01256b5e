import Systolic.Clocked.DelayLine
import Systolic.Clocked.Wire
import Systolic.Pipeline.Signal

/-!
# Skew lines

A triangle of delay lines in front of the array: element `r` of a row waits `r + 1` cycles, so that a row enters the
array along a diagonal. The row's control waits `N + 1` cycles and meets the first column's sum.
-/

namespace Systolic

structure SkewLines where
  /-- Line `r` has `r + 1` registers. -/
  lanes : List (DelayLine Lane)
  control : DelayLine (Wire AccControl)
  deriving DecidableEq

namespace SkewLines

structure Output where
  lanes : List Lane
  control : Wire AccControl
  deriving DecidableEq

/-- The lines in front of an array of `size` rows, at power-on. -/
def idle (size : Nat) : SkewLines := ⟨(List.range size).map fun r => .idle (r + 1), .idle (size + 1)⟩

/-- What `row?` presents to line `r`. -/
def entering (row? : Option MatrixRow) (r : Nat) : Lane := (row?.map (·.lane r)).getD {}

/-- One cycle in which `row?` is pushed. -/
def step (s : SkewLines) (row? : Option MatrixRow) : SkewLines × Output :=
  let control := Wire.ofOption (row?.map (·.control))
  ({ lanes := s.lanes.mapIdx fun r line => line.shift (entering row? r), control := s.control.shift control },
    { lanes := s.lanes.mapIdx fun r line => line.output (entering row? r), control := s.control.output control })

/-- Every register back at its power-on value. -/
def clear (s : SkewLines) : SkewLines := ⟨s.lanes.map .clear, s.control.clear⟩

end SkewLines

end Systolic
