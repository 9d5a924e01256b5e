import Systolic.Chip.Basic
import Systolic.Instruction.Basic
import Systolic.Storage.Row

/-!
# What an accumulator row turns into

Rows stream from the accumulators through an activation function into the scratchpad. The last element of a row doubles
as a control tag: a row can ask for a conditional branch, for an absolute jump, or for a test whose result is written
back like any other row. Branches and jumps count only in the first row of an instruction.
-/

namespace Systolic

namespace Activation

/-- `255 / (1 + e^-x)` for `x` in `0..8`, rounded. -/
def sigmoidTable : List Word := [128, 187, 225, 243, 251, 254, 255, 255]

/-- The function of one accumulator word of `accWidth` bits, not yet cut to the data width. The sigmoid reads the word
as unsigned and saturates beyond its table, for negative words too. -/
def apply (accWidth : Nat) : Activation → Word → Word
  | identity, v => v
  | relu, v => if v < 0 then 0 else v
  | sigmoid, v => sigmoidTable.getD (Word.low accWidth v).toNat 255

end Activation

/-- The tags that a row can carry in its last element. -/
inductive Tag
  | branch
  | equality
  | lessThan
  | jump
  deriving DecidableEq

namespace Tag

def code : Tag → Word
  | branch => 1
  | equality => 2
  | lessThan => 3
  | jump => 4

def all : List Tag := [branch, equality, lessThan, jump]

def ofCode? (v : Word) : Option Tag := all.find? (·.code == v)

theorem ofCode?_code (t : Tag) : ofCode? t.code = some t := by cases t <;> decide

end Tag

inductive Outcome
  /-- An ordinary row, through the activation function. -/
  | activated (row : Row)
  /-- A conditional branch; `offset` counts from the activation's own address. -/
  | branch (taken : Bool) (offset : Word)
  | equality (row : Row)
  | lessThan (row : Row)
  | jump (target : UInt64)
  deriving DecidableEq

namespace Outcome

def ofBool (b : Bool) : Word := if b then 1 else 0

/-- What `row` turns into; `first` tells whether it is the first of its instruction.

- A branch is taken when the element before the tag differs from zero; it goes to the next instruction plus element 0, or
  plus element 1 when it is not taken.
- A jump goes to element 1, read as an unsigned data element.
- An equality test writes whether element 0 is zero and clears element 1 and the tag.
- A less-than test writes whether element 0 is negative. -/
def decode (chip : Chip) (function : Activation) (first : Bool) (row : Row) : Outcome :=
  let n := row.length
  let wrapped := row.wrap chip.dataWidth
  match Tag.ofCode? (row.getD (n - 1) 0), first with
  | some .branch, true =>
    let taken := row.getD (n - 2) 0 != 0
    .branch taken ((if taken then row.getD 0 0 else row.getD 1 0) + 1)
  | some .jump, true => .jump (Word.low chip.dataWidth (row.getD 1 0))
  | some .equality, _ => .equality (((wrapped.set 0 (ofBool (row.getD 0 0 == 0))).set 1 0).set (n - 1) 0)
  | some .lessThan, _ => .lessThan (wrapped.set 0 (ofBool (row.getD 0 0 < 0)))
  | _, _ => .activated (Row.wrap chip.dataWidth (row.map (function.apply chip.accWidth)))

/-- The row that is written to the scratchpad. -/
def writeback? : Outcome → Option Row
  | activated row | equality row | lessThan row => some row
  | branch _ _ | jump _ => none

/-- The new program counter, for an activation at `pc`. -/
def redirect? (pc : UInt64) : Outcome → Option UInt64
  | branch _ offset => some (pc + offset.toUInt64)
  | jump target => some target
  | _ => none

end Outcome

end Systolic
