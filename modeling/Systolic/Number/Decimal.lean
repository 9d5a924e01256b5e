/-!
# Decimal numerals

Whole numbers written with the digits `0` to `9`. `signed?` and `unsigned?` accept a leading plus sign, and only
`signed?` a minus sign.
-/

namespace Systolic.Decimal

/-- The number that the digits spell, most significant first. -/
def ofDigits (digits : List Char) : Nat := digits.foldl (fun n c => n * 10 + (c.toNat - '0'.toNat)) 0

/-- The number that one or more digits and nothing else spell. -/
def digits? (text : List Char) : Option Nat :=
  if text.isEmpty ∨ ¬ text.all Char.isDigit then none else some (ofDigits text)

def unsigned? : List Char → Option Nat
  | '+' :: digits => digits? digits
  | digits => digits? digits

def signed? : List Char → Option Int
  | '+' :: digits => (digits? digits).map Int.ofNat
  | '-' :: digits => (digits? digits).map fun n => -(n : Int)
  | digits => (digits? digits).map Int.ofNat

/-- The whole numbers of 64 bits without a sign. -/
def unsigned64? (text : List Char) : Option Nat := (unsigned? text).filter (· < Nat.pow 2 64)

def fits64 (n : Int) : Bool := (-n).toNat ≤ Nat.pow 2 63 ∧ n.toNat < Nat.pow 2 63

/-- The whole numbers of 64 bits with a sign. -/
def signed64? (text : List Char) : Option Int := (signed? text).filter fits64

end Systolic.Decimal
