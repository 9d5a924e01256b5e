import Systolic.Clocked.Wire
import Systolic.Pipeline.Command
import Systolic.Pipeline.Signal

/-!
# Rows of a multiplication

The row source reads one scratchpad row per cycle for the running multiplication, from the cycle in which the command
arrives. The first row carries the weight switch, the last one is marked.
-/

namespace Systolic

/-- What is left to read of a multiplication. -/
structure RowSource.Job where
  padAddr : UInt64
  accAddr : UInt64
  remaining : UInt64
  overwrite : Bool
  switch : Bool
  deriving DecidableEq

structure RowSource where
  job : Option RowSource.Job := none
  deriving DecidableEq

namespace RowSource

def Job.ofCommand (m : Multiplication) : Job := ⟨m.padAddr, m.accAddr, m.length, m.overwrite, m.switch⟩

/-- The row that the job reads next. -/
def Job.row (j : Job) (pad : RowStore) : MatrixRow :=
  ⟨pad.read j.padAddr, j.switch, ⟨j.accAddr, j.overwrite, j.remaining == 1⟩⟩

/-- The job after its next row; only the first row switches. -/
def Job.next? (j : Job) : Option Job :=
  if 1 < j.remaining then some ⟨j.padAddr + 1, j.accAddr + 1, j.remaining - 1, j.overwrite, false⟩ else none

/-- One cycle. A command replaces the running job. -/
def step (s : RowSource) (issue : Option Multiplication) (pad : RowStore) : RowSource × Option MatrixRow :=
  match (issue.map Job.ofCommand).or s.job with
  | none => ({}, none)
  | some j => if j.remaining = 0 then ({}, none) else (⟨j.next?⟩, some (j.row pad))

/-- Every register back at its power-on value. -/
def clear (_ : RowSource) : RowSource := {}

end RowSource

end Systolic
