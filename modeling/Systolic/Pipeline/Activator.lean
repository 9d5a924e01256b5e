import Systolic.Pipeline.Command
import Systolic.Pipeline.Outcome
import Systolic.Storage.Accumulator

/-!
# The activation unit

Streams accumulator rows into the scratchpad, one per cycle. A first row that turns out to be a branch or a jump ends the
instruction: nothing is written and the program counter is redirected.
-/

namespace Systolic

/-- What is left to do of an activation. -/
structure Activator.Job where
  accAddr : UInt64
  padAddr : UInt64
  remaining : UInt64
  function : Activation
  pc : UInt64
  first : Bool
  deriving DecidableEq

structure Activator where
  job : Option Activator.Job := none
  deriving DecidableEq

namespace Activator

structure Output where
  write : Option RowStore.Write := none
  redirect : Option UInt64 := none
  /-- The instruction ended early, on a branch or a jump. -/
  resolved : Bool := false
  deriving DecidableEq

def Job.ofCommand (a : ActivationRun) : Job := ⟨a.accAddr, a.padAddr, a.length, a.function, a.pc, true⟩

/-- The job after an ordinary row. -/
def Job.next? (j : Job) : Option Job :=
  if 1 < j.remaining then some ⟨j.accAddr + 1, j.padAddr + 1, j.remaining - 1, j.function, j.pc, false⟩ else none

/-- One cycle of a job that has a row left. -/
def Job.step (chip : Chip) (store : AccStore) (j : Job) : Activator × Output :=
  let outcome := Outcome.decode chip j.function j.first (store.readRow j.accAddr)
  match outcome.redirect? j.pc with
  | some target => ({}, { redirect := some target, resolved := true })
  | none => (⟨j.next?⟩, { write := outcome.writeback?.map (⟨j.padAddr, ·⟩) })

/-- One cycle. A command replaces the running job. -/
def step (chip : Chip) (a : Activator) (issue : Option ActivationRun) (store : AccStore) : Activator × Output :=
  match (issue.map Job.ofCommand).or a.job with
  | none => ({}, {})
  | some j => if j.remaining = 0 then ({}, {}) else j.step chip store

def busy (a : Activator) : Bool := a.job.isSome

/-- Every register back at its power-on value. -/
def clear (_ : Activator) : Activator := {}

end Activator

end Systolic
