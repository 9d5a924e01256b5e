import Systolic.Storage.Row

/-!
# Signals between the units

What travels on the connections of the pipeline: the rows that a multiplication reads, the elements that enter the array
on its left edge, and the control that accompanies a row to the accumulators.
-/

namespace Systolic

/-- One element at the left edge of the array. -/
structure Lane where
  data : Word := 0
  valid : Bool := false
  /-- Every cell that the element passes switches to its staged weight. -/
  switch : Bool := false
  deriving DecidableEq

instance : Inhabited Lane := ⟨{}⟩

/-- What the accumulators have to know about a row. -/
structure AccControl where
  accAddr : UInt64 := 0
  overwrite : Bool := false
  /-- The last row of its multiplication. -/
  last : Bool := false
  deriving DecidableEq

instance : Inhabited AccControl := ⟨{}⟩

/-- A scratchpad row on its way to the array. -/
structure MatrixRow where
  data : Row
  switch : Bool
  control : AccControl
  deriving DecidableEq

namespace MatrixRow

/-- Element `i` of the row as it enters the array. -/
def lane (row : MatrixRow) (i : Nat) : Lane := ⟨row.data.getD i 0, true, row.switch⟩

end MatrixRow

/-- A timing violation that a correctly scheduled program never triggers. -/
inductive Hazard
  /-- A weight switch reached the array before any tile was staged. -/
  | switchWithoutWeights
  /-- A weight switch reached the array while a tile was still being programmed. -/
  | switchDuringLoad
  /-- A weight burst arrived while the queue could not take it. -/
  | queueOverflow
  deriving DecidableEq

namespace Hazard

def message : Hazard → String
  | switchWithoutWeights => "weight switch reached the array before any tile was staged"
  | switchDuringLoad => "weight switch reached the array while a tile was still being programmed"
  | queueOverflow => "weight burst arrived while the FIFO was full"

def name : Hazard → String
  | switchWithoutWeights => "SwitchWithoutWeights"
  | switchDuringLoad => "SwitchDuringLoad"
  | queueOverflow => "FifoOverflow"

end Hazard

end Systolic
