import Systolic.Text.Blank

/-!
# Step-mode requests

What a line of step-mode input asks for. Blanks around a line do not count, and an empty line steps one cycle.
-/

namespace Systolic

inductive Request
  /-- Step some cycles. -/
  | step (cycles : Nat)
  /-- Run on to the end. -/
  | continue
  /-- Show the report so far. -/
  | print
  | quit
  deriving DecidableEq

namespace Request

/-- Why a text is no 32-bit count. -/
inductive CountError
  | invalidDigit
  | tooLarge
  deriving DecidableEq

def CountError.message : CountError → String
  | invalidDigit => "invalid digit found in string"
  | tooLarge => "number too large to fit in target type"

/-- Why a line asks for nothing. -/
inductive Refusal
  | missingCount
  | zeroCount
  | badCount (text : List Char) (error : CountError)
  | unknown (text : List Char)
  deriving DecidableEq

def Refusal.message : Refusal → String
  | missingCount => "'si' requires a number, e.g., 'si 100'"
  | zeroCount => "step count must be greater than 0"
  | badCount text error => s!"invalid number '{String.ofList text}': {error.message}"
  | unknown text => s!"Unknown command: '{String.ofList text}'. " ++
      "Use Enter to step, 'si 100' to step N cycles, 'c' to continue, 'p' to print state, 'q' to quit"

/-- The first count that does not fit. -/
def countBound : Nat := Nat.pow 2 32

/-- Read decimal digits on top of `n`. The first character that is no digit, or that takes the number past the bound, is
the error. -/
def readDigits (n : Nat) : List Char → Except CountError Nat
  | [] => .ok n
  | c :: cs =>
    if c.isDigit then
      let n := n * 10 + (c.toNat - '0'.toNat)
      if n < countBound then readDigits n cs else .error .tooLarge
    else .error .invalidDigit

/-- Read a count: digits after an optional plus sign. -/
def readCount (text : List Char) : Except CountError Nat :=
  match text with
  | [] | ['+'] => .error .invalidDigit
  | '+' :: digits => readDigits 0 digits
  | digits => readDigits 0 digits

/-- The request after `si`. -/
def ofCount (text : List Char) : Except Refusal Request :=
  if text.isEmpty then .error .missingCount
  else
    match readCount text with
    | .ok 0 => .error .zeroCount
    | .ok n => .ok (.step n)
    | .error e => .error (.badCount text e)

/-- What a line asks for. -/
def parse (line : List Char) : Except Refusal Request :=
  match Text.trim line with
  | [] => .ok (.step 1)
  | 's' :: 'i' :: rest => ofCount (Text.trim rest)
  | ['c'] => .ok .continue
  | ['p'] => .ok .print
  | ['q'] => .ok .quit
  | text => .error (.unknown text)

end Request

end Systolic
