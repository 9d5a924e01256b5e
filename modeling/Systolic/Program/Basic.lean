import Systolic.Instruction.Encoding

/-!
# Programs

A program is a list of instructions, read from address 0 on. Past its end memory is blank, and blank memory reads as
`NOP`.
-/

namespace Systolic

structure Program where
  instructions : List Instruction := []
  deriving DecidableEq

namespace Program

def length (p : Program) : Nat := p.instructions.length

/-- The instruction at address `pc`. -/
def fetch (p : Program) (pc : UInt64) : Instruction := p.instructions.getD pc.toNat .nop

def encode (l : Layout) (p : Program) : List UInt8 := (p.instructions.map (·.encode l)).flatten

/-- The first `count` instructions of `bytes`, numbered from `index`. -/
def decodeFrom (l : Layout) (index : Nat) : Nat → List UInt8 → Except DecodeError (List Instruction)
  | 0, _ => .ok []
  | count + 1, bytes => do
    let i ← Instruction.decode l index (bytes.take l.width)
    let rest ← decodeFrom l (index + 1) count (bytes.drop l.width)
    return i :: rest

/-- The program that `bytes` spell. A length that is no whole number of instructions is refused first, then the first
unknown opcode. -/
def decode (l : Layout) (bytes : List UInt8) : Except DecodeError Program :=
  if bytes.length % l.width = 0 then
    (decodeFrom l 0 (bytes.length / l.width) bytes).map Program.mk
  else .error (.truncated bytes.length l.width)

end Program

end Systolic
