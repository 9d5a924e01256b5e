import Mathlib.Algebra.Group.Nat.Defs
import Systolic.Pipeline.Sequencer

/-!
# Spans and durations

The span of a command is how long it keeps its class of units busy. The sequencer counts it down as a word of 64 bits,
so that it counts the span itself only if it fits a word (`Command.SpanFits`, `Instruction.SpanFits`), and else what a
word keeps of it.
-/

namespace Systolic

/-- The classes of units that the sequencer counts for. -/
inductive UnitClass
  | matrix
  | activate
  | host
  | weights
  deriving DecidableEq

/-- The class of units that a command is for. -/
def Command.unitClass : Command → UnitClass
  | .readHost _ | .writeHost _ | .placeJump _ _ => .host
  | .readWeights _ => .weights
  | .multiply _ => .matrix
  | .activate _ => .activate

/-- The units that an instruction keeps busy. -/
def Opcode.unitClass? : Opcode → Option UnitClass
  | .readHost | .writeHost => some .host
  | .readWeights => some .weights
  | .multiply => some .matrix
  | .activate => some .activate
  | .nop | .sync | .halt => none

/-! ## Spans -/

/-- How long a transfer of `length` rows takes. -/
def hostSpan (length : UInt64) : Nat := length.toNat + 1

namespace Chip

variable (c : Chip)

/-- How long a multiplication of `length` rows takes. -/
def matrixSpan (length : UInt64) : Nat := 2 * c.size + length.toNat + drainCycles

/-- How long a weight read takes. -/
def weightSpan : Nat := c.burstsPerTile + c.latency + c.size + queueDepth

theorem matrixCycles_eq (length : UInt64) : c.matrixCycles length = UInt64.ofNat (c.matrixSpan length) := by
  simp [matrixCycles, matrixSpan, UInt64.ofNat_add, UInt64.ofNat_mul]

theorem toNat_matrixCycles {c : Chip} {length : UInt64} (h : c.matrixSpan length < 2 ^ 64) :
    (c.matrixCycles length).toNat = c.matrixSpan length := by
  rw [matrixCycles_eq, UInt64.toNat_ofNat', Nat.mod_eq_of_lt h]

end Chip

/-- How long a command keeps its units busy. -/
def Command.span (chip : Chip) : Command → Nat
  | .readHost t | .writeHost t => hostSpan t.length
  | .placeJump _ _ => hostSpan 1
  | .readWeights _ => chip.weightSpan
  | .multiply m => chip.matrixSpan m.length
  | .activate a => a.length.toNat

/-- Rows that a host instruction moves: a single one when its address is indirect or it places a jump row. -/
def Instruction.rowsMoved (i : Instruction) : Nat :=
  if i.has switchBit || i.opcode == .readHost && i.has convertBit then 1 else i.length.toNat

/-- How long an instruction keeps its units busy. -/
def Instruction.span (chip : Chip) (i : Instruction) : Nat :=
  match i.opcode with
  | .readHost | .writeHost => i.rowsMoved + 1
  | .readWeights => chip.weightSpan
  | .multiply => chip.matrixSpan i.length
  | .activate => i.length.toNat
  | .nop | .sync | .halt => 0

/-! ## Spans that fit -/

/-- The sequencer counts the whole span of the command. -/
def Command.SpanFits (chip : Chip) (c : Command) : Prop := c.span chip < 2 ^ 64

/-- The sequencer counts the whole span of the instruction. -/
def Instruction.SpanFits (chip : Chip) (i : Instruction) : Prop := i.span chip < 2 ^ 64

/-- The sequencer counts the whole span of every instruction. -/
def Program.SpansFit (chip : Chip) (p : Program) : Prop := ∀ i ∈ p.instructions, i.SpanFits chip

instance (chip : Chip) (i : Instruction) : Decidable (i.SpanFits chip) := inferInstanceAs (Decidable (_ < _))

instance (chip : Chip) (p : Program) : Decidable (p.SpansFit chip) :=
  inferInstanceAs (Decidable (∀ i ∈ p.instructions, i.SpanFits chip))

theorem Instruction.SpanFits.matrix {chip : Chip} {i : Instruction} (h : i.SpanFits chip) (hop : i.opcode = .multiply) :
    chip.matrixSpan i.length < 2 ^ 64 := by
  simpa only [SpanFits, span, hop] using h

theorem Instruction.SpanFits.weights {chip : Chip} {i : Instruction} (h : i.SpanFits chip)
    (hop : i.opcode = .readWeights) : chip.weightSpan < 2 ^ 64 := by
  simpa only [SpanFits, span, hop] using h

theorem Instruction.fits_of_halt (i : Instruction) (chip : Chip) (h : i.opcode = .halt) : i.SpanFits chip := by
  simp [SpanFits, span, h]

theorem Program.SpansFit.fetch {chip : Chip} {p : Program} (h : p.SpansFit chip) (pc : UInt64) :
    (p.fetch pc).SpanFits chip := by
  rw [Program.fetch, List.getD_eq_getElem?_getD]
  cases hi : p.instructions[pc.toNat]? with
  | none => exact Nat.two_pow_pos 64
  | some i => exact h i (List.mem_of_getElem? hi)

/-! ## Counters -/

/-- A counter goes down as a number does. -/
@[simp] theorem toNat_tickDown (n : UInt64) : (tickDown n).toNat = n.toNat - 1 := by
  unfold tickDown
  split
  · simp [*]
  · have hn : n.toNat ≠ 0 := fun h => ‹¬ n = 0› (UInt64.toNat_inj.1 h)
    have hle : 1 ≤ n := UInt64.le_iff_toNat_le.2 (Nat.pos_of_ne_zero hn)
    rw [UInt64.toNat_sub_of_le _ _ hle, UInt64.toNat_one]

@[simp] theorem tickDown_zero : tickDown 0 = 0 := rfl

end Systolic
