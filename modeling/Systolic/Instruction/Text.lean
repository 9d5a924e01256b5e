import Systolic.Instruction.Basic
import Systolic.Text.Hex

/-!
# Instructions as text

The one-line form of an instruction in traces and step-mode output.
-/

namespace Systolic.Instruction

/-- Operations without operands show their mnemonic alone, a weight read its tile, any other all of its fields. -/
def describe (i : Instruction) : String :=
  match i.opcode with
  | .nop | .sync | .halt => i.opcode.mnemonic
  | .readWeights => s!"RW tile={i.memAddr}"
  | op => s!"{op.mnemonic} flags=0x{Text.hex 1 i.flags.toNat} len={i.length} mem={i.memAddr} ub={i.padAddr}"

end Systolic.Instruction
