import Systolic.Toml.Lexeme
import Systolic.Toml.Value

/-!
# Numbers, dates and times
-/

namespace Systolic.Toml.Number

open Reader Lexeme

/-! ## Whole numbers -/

/-- Digits with single underscores between them. -/
def digits (p : Char → Bool) : Reader Unit := discard (separated '_' (run1 p))

def plusMinus : Reader Char := one fun c => c = '+' ∨ c = '-'

/-- Decimal digits with an optional sign; a zero in front stands alone. -/
def wholeSpelling : Reader Unit := do
  discard (maybe plusMinus)
  exactly "0" <|> digits Char.isDigit

/-- What a spelling says once its underscores are gone. -/
def plain (text : List Char) : List Char := text.filter (· ≠ '_')

def inRange (n : Int) : Reader Int := if Decimal.fits64 n then return n else failure

def decimal : Reader Int := do
  match Decimal.signed? (plain (← spelling wholeSpelling)) with
  | some n => inRange n
  | none => failure

/-- Digits to a base after its mark. -/
def based (mark : String) (base : Nat) (p : Char → Bool) : Reader Int := do
  exactly mark
  inRange (Lexeme.number base (plain (← spelling (digits p))))

def integer : Reader Int :=
  based "0x" 16 isHexDigit <|> based "0o" 8 (fun c => '0' ≤ c ∧ c ≤ '7') <|>
    based "0b" 2 (fun c => c = '0' ∨ c = '1') <|> decimal

/-! ## Floats -/

def fractionSpelling : Reader Unit := do
  exactly "."
  digits Char.isDigit

def exponentSpelling : Reader Unit := do
  discard (one fun c => c = 'e' ∨ c = 'E')
  discard (maybe plusMinus)
  digits Char.isDigit

/-- A whole number with a fraction, an exponent or both. -/
def floatSpelling : Reader Unit := do
  wholeSpelling
  exponentSpelling <|> (do fractionSpelling; discard (maybe exponentSpelling))

/-- An infinity or a NaN by its name. -/
def namedSpelling : Reader Unit := do
  discard (maybe plusMinus)
  exactly "inf" <|> exactly "nan"

/-- A decimal too great for the format is refused, unless it is negative. -/
def float : Reader Double :=
  (do
    match Double.parse? (plain (← spelling floatSpelling)) with
    | none | some (.infinite false) => failure
    | some x => return x) <|>
  (do
    match Double.parse? (← spelling namedSpelling) with
    | none => failure
    | some x => return x)

/-! ## Dates and times -/

/-- Exactly so many decimal digits. -/
def fixed (count : Nat) : Reader Nat := do return Decimal.ofDigits (← exactRun Char.isDigit count)

def date : Reader Date := do
  let year ← fixed 4
  exactly "-"
  let month ← fixed 2
  exactly "-"
  let d : Date := ⟨year, month, ← fixed 2⟩
  if d.Valid then return d else failure

/-- The digits after the point of a second; those after the ninth do not count. -/
def nanoseconds (digits : List Char) : Nat :=
  let kept := digits.take 9
  Decimal.ofDigits kept * Nat.pow 10 (9 - kept.length)

def time : Reader Time := do
  let hour ← fixed 2
  exactly ":"
  let minute ← fixed 2
  exactly ":"
  let second ← fixed 2
  let fraction ← maybe (exactly "." *> run1 Char.isDigit)
  let t : Time := ⟨hour, minute, second, nanoseconds (fraction.getD [])⟩
  if t.Valid then return t else failure

/-- An offset whose hours and minutes are within `limit`. -/
def offset (limit : Nat → Nat → Bool) : Reader Offset :=
  (do discard (one fun c => c = 'Z' ∨ c = 'z'); return .universal) <|>
  (do
    let sign ← plusMinus
    let hour ← fixed 2
    exactly ":"
    let minute ← fixed 2
    if !limit hour minute then failure
    let minutes : Int := hour * 60 + minute
    return .minutes (if sign = '-' then -minutes else minutes))

/-- A date, a time, or both with a `T` or a space between them. -/
def moment (limit : Nat → Nat → Bool) : Reader Moment :=
  (do
    let d ← date
    let rest ← maybe do
      discard (one fun c => c = 'T' ∨ c = 't' ∨ c = ' ')
      let t ← time
      return (t, ← maybe (offset limit))
    match rest with
    | some (t, offset) => return .both d t offset
    | none => return .date d) <|>
  (do return .time (← time))

end Systolic.Toml.Number
