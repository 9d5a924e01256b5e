/-!
# Big-endian bytes

A number in a fixed count of bytes, most significant first. `bigEndian` keeps the low bytes of a number that does not
fit, and `value` reads bytes back.
-/

namespace Systolic.Bytes

/-- The low `width` bytes of `n`, most significant first. -/
def bigEndian : Nat → Nat → List UInt8
  | 0, _ => []
  | width + 1, n => bigEndian width (n / 256) ++ [.ofNat n]

/-- The number that `bytes` spell, most significant first. -/
def value (bytes : List UInt8) : Nat := bytes.foldl (fun n b => n * 256 + b.toNat) 0

/-- Cut the first `count` pieces of `width` bytes each off `bytes`. -/
def chunks {α : Type} (width : Nat) : Nat → List α → List (List α)
  | 0, _ => []
  | count + 1, bytes => bytes.take width :: chunks width count (bytes.drop width)

@[simp] theorem length_bigEndian (width n : Nat) : (bigEndian width n).length = width := by
  induction width generalizing n with
  | zero => rfl
  | succ w ih => simp [bigEndian, ih]

@[simp] theorem value_nil : value [] = 0 := rfl

@[simp] theorem value_concat (bytes : List UInt8) (b : UInt8) : value (bytes ++ [b]) = value bytes * 256 + b.toNat := by
  simp [value]

end Systolic.Bytes
