/-!
# Hexadecimal text
-/

namespace Systolic.Text

/-- `n` in lower-case hexadecimal, padded with zeros to at least `least` digits. -/
def hex (least n : Nat) : String :=
  let digits := Nat.toDigits 16 n
  .ofList (List.replicate (least - digits.length) '0' ++ digits)

end Systolic.Text
