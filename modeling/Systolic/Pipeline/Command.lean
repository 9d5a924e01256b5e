import Systolic.Instruction.Basic

/-!
# Commands

A dispatched instruction reaches its unit as a command: the operands that the unit needs, with flags decoded and an
indirect scratchpad address already looked up.
-/

namespace Systolic

/-- Rows between the host and the scratchpad. -/
structure Transfer where
  hostAddr : UInt64
  padAddr : UInt64
  length : UInt64
  deriving DecidableEq

/-- Rows through the array into the accumulators. -/
structure Multiplication where
  padAddr : UInt64
  accAddr : UInt64
  length : UInt64
  overwrite : Bool
  switch : Bool
  deriving DecidableEq

/-- Rows through the activation unit into the scratchpad. -/
structure ActivationRun where
  accAddr : UInt64
  padAddr : UInt64
  length : UInt64
  function : Activation
  /-- The address of the instruction; branch offsets count from it. -/
  pc : UInt64
  deriving DecidableEq

inductive Command
  | readHost (t : Transfer)
  | writeHost (t : Transfer)
  | placeJump (target padAddr : UInt64)
  | readWeights (tile : UInt64)
  | multiply (m : Multiplication)
  | activate (a : ActivationRun)
  deriving DecidableEq

namespace Command

def multiplication? : Command → Option Multiplication
  | multiply m => some m
  | _ => none

def activation? : Command → Option ActivationRun
  | activate a => some a
  | _ => none

/-- The tile that a weight read asks for. -/
def tile? : Command → Option UInt64
  | readWeights tile => some tile
  | _ => none

end Command

end Systolic
