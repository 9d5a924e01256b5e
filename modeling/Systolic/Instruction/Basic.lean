/-!
# Instructions

Eight operations in one fixed format: an opcode, flag bits, a length and two row addresses. What a flag or an address
means depends on the opcode; the named constructors below build each meaningful combination.
-/

namespace Systolic

inductive Opcode
  | nop
  /-- Scratchpad rows out to the host. -/
  | writeHost
  /-- One weight tile into the queue. -/
  | readWeights
  /-- Scratchpad rows through the array into the accumulators. -/
  | multiply
  /-- Accumulator rows through an activation function into the scratchpad. -/
  | activate
  /-- Wait until every unit is idle. -/
  | sync
  /-- Host rows into the scratchpad. -/
  | readHost
  | halt
  deriving DecidableEq

namespace Opcode

def all : List Opcode := [nop, writeHost, readWeights, multiply, activate, sync, readHost, halt]

/-- The number that stands for an opcode in an instruction word. -/
def code : Opcode → Nat
  | nop => 0
  | writeHost => 1
  | readWeights => 2
  | multiply => 3
  | activate => 4
  | sync => 5
  | readHost => 6
  | halt => 7

def ofCode? (n : Nat) : Option Opcode := all[n]?

def mnemonic : Opcode → String
  | nop => "NOP"
  | writeHost => "WHM"
  | readWeights => "RW"
  | multiply => "MMC"
  | activate => "ACT"
  | sync => "SYNC"
  | readHost => "RHM"
  | halt => "HLT"

theorem ofCode?_code (op : Opcode) : ofCode? op.code = some op := by cases op <;> rfl

theorem code_lt (op : Opcode) : op.code < 8 := by cases op <;> decide

/-- Exactly the codes below eight stand for an opcode. -/
theorem ofCode?_eq_some_iff {n : Nat} {op : Opcode} : ofCode? n = some op ↔ n = op.code := by
  constructor
  · intro h
    have hn : n < 8 := (List.getElem?_eq_some_iff.1 h).1
    revert h; revert n
    cases op <;> decide
  · rintro rfl; exact ofCode?_code op

end Opcode

/-- The functions an activation can apply. -/
inductive Activation
  | identity
  | relu
  | sigmoid
  deriving DecidableEq

namespace Activation

/-- The two select bits of a function. -/
def code : Activation → UInt64
  | identity => 0
  | relu => 1
  | sigmoid => 2

/-- The function selected by the low two bits; the unused code `3` selects the identity. -/
def ofCode (bits : UInt64) : Activation :=
  match (bits &&& 3).toNat with
  | 1 => relu
  | 2 => sigmoid
  | _ => identity

theorem ofCode_code (f : Activation) : ofCode f.code = f := by cases f <;> decide

end Activation

/-- An instruction as it stands in memory. -/
structure Instruction where
  opcode : Opcode := .nop
  flags : UInt64 := 0
  length : UInt64 := 0
  /-- A host row, a weight tile or an accumulator row. -/
  memAddr : UInt64 := 0
  /-- A scratchpad row. -/
  padAddr : UInt64 := 0
  deriving DecidableEq

namespace Instruction

/-! ## Flag bits -/

/-- A multiplication replaces the accumulators instead of adding to them. -/
def overwriteBit : UInt64 := 1

/-- A multiplication switches to the staged weights; a host transfer takes its scratchpad address from the row it
names. -/
def switchBit : UInt64 := 2

/-- A host read places a jump row instead of reading the host. -/
def convertBit : UInt64 := 4

def has (i : Instruction) (bit : UInt64) : Bool := i.flags &&& bit != 0

/-- The function an activation selects. -/
def activation (i : Instruction) : Activation := .ofCode i.flags

/-! ## Constructors -/

def nop : Instruction := {}

def sync : Instruction := { opcode := .sync }

def halt : Instruction := { opcode := .halt }

/-- Host rows `host..host+length` into scratchpad rows `pad..pad+length`. -/
def readHost (host pad length : UInt64) : Instruction :=
  { opcode := .readHost, length, memAddr := host, padAddr := pad }

/-- Host row `host` into the scratchpad row named by element 0 of row `pointer`. -/
def readHostVia (host pointer : UInt64) : Instruction :=
  { opcode := .readHost, flags := switchBit, length := 1, memAddr := host, padAddr := pointer }

/-- A row that jumps to `target`, into scratchpad row `pad`. -/
def placeJump (target pad : UInt64) : Instruction :=
  { opcode := .readHost, flags := convertBit, length := 1, memAddr := target, padAddr := pad }

/-- Scratchpad rows `pad..pad+length` out to host rows `host..host+length`. -/
def writeHost (host pad length : UInt64) : Instruction :=
  { opcode := .writeHost, length, memAddr := host, padAddr := pad }

/-- The scratchpad row named by element 0 of row `pointer`, out to host row `host`. -/
def writeHostVia (host pointer : UInt64) : Instruction :=
  { opcode := .writeHost, flags := switchBit, length := 1, memAddr := host, padAddr := pointer }

def readWeights (tile : UInt64) : Instruction := { opcode := .readWeights, memAddr := tile }

/-- Scratchpad rows `pad..pad+length` times the weights, added to accumulator rows `acc..acc+length`. -/
def multiply (pad acc length : UInt64) : Instruction :=
  { opcode := .multiply, length, memAddr := acc, padAddr := pad }

/-- Accumulator rows `acc..acc+length` through `f` into scratchpad rows `pad..pad+length`. -/
def activate (acc pad length : UInt64) (f : Activation) : Instruction :=
  { opcode := .activate, flags := f.code, length, memAddr := acc, padAddr := pad }

def withOverwrite (i : Instruction) : Instruction := { i with flags := i.flags ||| overwriteBit }

def withSwitch (i : Instruction) : Instruction := { i with flags := i.flags ||| switchBit }

end Instruction

end Systolic
