/-!
# Aligned text
-/

namespace Systolic.Text

/-- `s` at the right end of a field of `width` characters; a longer text keeps its length. -/
def right (width : Nat) (s : String) : String := "".pushn ' ' (width - s.length) ++ s

/-- `s` at the left end of a field of `width` characters; a longer text keeps its length. -/
def left (width : Nat) (s : String) : String := s.pushn ' ' (width - s.length)

end Systolic.Text
