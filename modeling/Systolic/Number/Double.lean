import Systolic.Number.Decimal

/-!
# Binary64 numbers

The numbers of the binary64 format in exact arithmetic: a finite one is `± m * 2 ^ e`. A decimal is read as the nearest
of them (`ofDecimal`), and one is written with the fewest digits that read back as it, without an exponent (`text`).
-/

namespace Systolic

/-- A quotient of whole numbers; the denominator is positive. -/
structure Ratio where
  num : Nat
  den : Nat := 1
  deriving DecidableEq

namespace Ratio

/-- `r * base ^ k`. -/
def scale (r : Ratio) (base : Nat) (k : Int) : Ratio :=
  if 0 ≤ k then { r with num := r.num * Nat.pow base k.toNat } else { r with den := r.den * Nat.pow base (-k).toNat }

def floor (r : Ratio) : Nat := r.num / r.den

/-- The nearest whole number, of two equally near ones the even one. -/
def nearestEven (r : Ratio) : Nat :=
  let rest := 2 * (r.num % r.den)
  if r.den < rest ∨ (rest = r.den ∧ r.floor % 2 = 1) then r.floor + 1 else r.floor

/-- The nearest whole number, of two equally near ones the greater one. -/
def nearestUp (r : Ratio) : Nat := (2 * r.num + r.den) / (2 * r.den)

end Ratio

inductive Double
  | nan
  | infinite (negative : Bool)
  /-- `± significand * 2 ^ exponent`. -/
  | finite (negative : Bool) (significand : Nat) (exponent : Int)
  deriving DecidableEq

namespace Double

/-- A significand has 53 bits, the first of them set unless the exponent is the least one. -/
def significandBound : Nat := Nat.pow 2 53

def leastExponent : Int := -1074

def greatestExponent : Int := 971

def zero (negative : Bool) : Double := finite negative 0 leastExponent

/-! ## Reading -/

/-- The number nearest to `± r`, of two equally near ones the one with the even significand. -/
def ofRatio (negative : Bool) (r : Ratio) : Double :=
  if r.num = 0 then zero negative
  else
    -- `r` is less than `2 ^ (size + 1)` and more than `2 ^ (size - 1)`
    let size : Int := (r.num.log2 : Int) - r.den.log2
    let fine := max (size - 53) leastExponent
    let exponent := if (r.scale 2 (-fine)).floor < significandBound then fine else fine + 1
    let rounded := (r.scale 2 (-exponent)).nearestEven
    let (significand, exponent) := if rounded = significandBound then (rounded / 2, exponent + 1) else (rounded, exponent)
    if greatestExponent < exponent then infinite negative else finite negative significand exponent

/-- The number nearest to `± n * 10 ^ k`. Decimals beyond the range are settled by their magnitude alone. -/
def ofDecimal (negative : Bool) (n : Nat) (k : Int) : Double :=
  let magnitude : Int := (Nat.toDigits 10 n).length + k
  if n = 0 ∨ magnitude < -330 then zero negative
  else if 310 < magnitude then infinite negative
  else ofRatio negative ((Ratio.mk n 1).scale 10 k)

/-- The text before the first character that satisfies `stop`, and the text after that character if there is one. -/
def cut (stop : Char → Bool) (text : List Char) : List Char × Option (List Char) :=
  match text.dropWhile (!stop ·) with
  | [] => (text, none)
  | _ :: rest => (text.takeWhile (!stop ·), some rest)

/-- Read digits with an optional point and an optional exponent. At least one digit stands before or after the point. -/
def parseUnsigned? (negative : Bool) (text : List Char) : Option Double := do
  let (mantissa, exponent) := cut (fun c => c = 'e' ∨ c = 'E') text
  let (whole, fraction) := cut (· = '.') mantissa
  let fraction := fraction.getD []
  let n ← Decimal.digits? (whole ++ fraction)
  let k ← match exponent with
    | none => some 0
    | some digits => Decimal.signed? digits
  return ofDecimal negative n (k - fraction.length)

/-- Read a decimal, an infinity or a NaN; letters count in either case. -/
def parse? (text : List Char) : Option Double :=
  let (negative, rest) := match text with
    | '-' :: rest => (true, rest)
    | '+' :: rest => (false, rest)
    | rest => (false, rest)
  let word := String.ofList (rest.map Char.toLower)
  if word = "nan" then some nan
  else if word = "inf" ∨ word = "infinity" then some (infinite negative)
  else parseUnsigned? negative rest

/-! ## Writing -/

/-- The least power of ten above `r`, as its exponent; `r` is a positive number of the format. -/
def decade (r : Ratio) : Int :=
  let exponents := (List.range 640).map fun (i : Nat) => (i : Int) - 330
  (exponents.find? fun k => (r.scale 10 (-k)).floor = 0).getD 0

/-- The fewest digits of a decimal that reads back as `m * 2 ^ e`, with the exponent of its last digit; of two such
decimals the nearer one. For one digit, two digits and so on it looks at the number's two neighbours among the decimals
with so many digits; seventeen digits always suffice. -/
def shortest (m : Nat) (e : Int) : Nat × Int :=
  let quarter (n : Nat) : Ratio := (Ratio.mk n 1).scale 2 (e - 2)
  let value := quarter (4 * m)
  let low := quarter (if 2 * m = significandBound ∧ leastExponent < e then 4 * m - 1 else 4 * m - 2)
  let high := quarter (4 * m + 2)
  let top := decade value
  let withDigits (count : Nat) : Option (Nat × Int) :=
    let k := top - count
    let value := value.scale 10 (-k)
    let low := low.scale 10 (-k)
    let high := high.scale 10 (-k)
    let readsBack (n : Nat) : Bool :=
      if m % 2 = 0 then low.num ≤ n * low.den ∧ n * high.den ≤ high.num
      else low.num < n * low.den ∧ n * high.den < high.num
    let below := value.floor
    match readsBack below, readsBack (below + 1) with
    | true, true => some (value.nearestUp, k)
    | true, false => some (below, k)
    | false, true => some (below + 1, k)
    | false, false => none
  ((List.range' 1 17).findSome? withDigits).getD ((value.scale 10 (17 - top)).nearestUp, top - 17)

/-- `n * 10 ^ k` without an exponent, and without zeros at the end of the fraction. -/
def positional (n : Nat) (k : Int) : String :=
  if 0 ≤ k then toString (n * Nat.pow 10 k.toNat)
  else
    let places := (-k).toNat
    let unit := Nat.pow 10 places
    let digits := Nat.toDigits 10 (n % unit)
    let fraction := List.replicate (places - digits.length) '0' ++ digits
    let kept := (fraction.reverse.dropWhile (· = '0')).reverse
    let point := if kept.isEmpty then "" else "."
    toString (n / unit) ++ point ++ .ofList kept

def sign (negative : Bool) : String := if negative then "-" else ""

/-- The shortest decimal that reads back. -/
def text : Double → String
  | nan => "NaN"
  | infinite negative => sign negative ++ "inf"
  | finite negative m e =>
    if m = 0 then sign negative ++ "0"
    else
      let (digits, k) := shortest m e
      sign negative ++ positional digits k

/-! ## Counts and truth -/

def greatestCount : Nat := Nat.pow 2 64 - 1

/-- The nearest count of 64 bits; a half goes up, and what is no number counts as zero. -/
def toCount : Double → Nat
  | nan | infinite true | finite true _ _ => 0
  | infinite false => greatestCount
  | finite false m e => min ((Ratio.mk m 1).scale 2 e).nearestUp greatestCount

def isZero : Double → Bool
  | finite _ 0 _ => true
  | _ => false

end Double

end Systolic
