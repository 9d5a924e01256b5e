import Systolic.Chip.Basic
import Systolic.Instruction.Basic
import Systolic.Text.Bytes
import Systolic.Text.Hex

/-!
# Instruction bytes

An instruction is its five fields one after the other, each big-endian in the number of bytes that the layout gives it.
A field that does not fit keeps its low bytes.
-/

namespace Systolic

/-- Why bytes are no instruction stream. -/
inductive DecodeError
  /-- The opcode field of instruction `index` stands for no operation. -/
  | unknownOpcode (opcode : UInt64) (index : Nat)
  /-- `length` bytes are no whole number of instructions. -/
  | truncated (length width : Nat)
  deriving DecidableEq

def DecodeError.message : DecodeError → String
  | unknownOpcode opcode index => s!"unknown opcode 0x{Text.hex 2 opcode.toNat} at instruction {index}"
  | truncated length width =>
    s!"program is {length} bytes, not a multiple of the {width}-byte instruction width"

namespace Instruction

def encode (l : Layout) (i : Instruction) : List UInt8 :=
  Bytes.bigEndian l.opcode i.opcode.code ++ Bytes.bigEndian l.flags i.flags.toNat ++
    Bytes.bigEndian l.length i.length.toNat ++ Bytes.bigEndian l.memAddr i.memAddr.toNat ++
    Bytes.bigEndian l.padAddr i.padAddr.toNat

/-- The field of `width` bytes at the head of `bytes`, and the bytes after it. -/
def takeField (width : Nat) (bytes : List UInt8) : UInt64 × List UInt8 :=
  (.ofNat (Bytes.value (bytes.take width)), bytes.drop width)

/-- One instruction from exactly its bytes; `index` only serves the error. -/
def decode (l : Layout) (index : Nat) (bytes : List UInt8) : Except DecodeError Instruction :=
  if bytes.length = l.width then
    let (opcode, bytes) := takeField l.opcode bytes
    let (flags, bytes) := takeField l.flags bytes
    let (length, bytes) := takeField l.length bytes
    let (memAddr, bytes) := takeField l.memAddr bytes
    let (padAddr, _) := takeField l.padAddr bytes
    match Opcode.ofCode? opcode.toNat with
    | some opcode => .ok { opcode, flags, length, memAddr, padAddr }
    | none => .error (.unknownOpcode opcode index)
  else .error (.truncated bytes.length l.width)

end Instruction

end Systolic
