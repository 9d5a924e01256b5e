import Mathlib.Algebra.Order.Ring.Int
import Systolic.Text.Bytes

/-!
# Writing and reading bytes

Writing a number and reading it back reduces it modulo `256 ^ width` (`value_bigEndian`); reading bytes and writing the
number in as many bytes changes nothing (`bigEndian_value`).
-/

namespace Systolic.Bytes

theorem value_bigEndian (width n : Nat) : value (bigEndian width n) = n % 256 ^ width := by
  induction width generalizing n with
  | zero => simp [bigEndian, Nat.mod_one]
  | succ w ih =>
    rw [bigEndian, value_concat, ih, UInt8.toNat_ofNat', show 256 ^ (w + 1) = 256 * 256 ^ w from Nat.pow_succ',
      Nat.mod_mul, show 2 ^ 8 = 256 from rfl]
    omega

theorem bigEndian_value (bytes : List UInt8) : bigEndian bytes.length (value bytes) = bytes := by
  induction h : bytes.length generalizing bytes with
  | zero => simp [List.length_eq_zero_iff.1 h, bigEndian]
  | succ w ih =>
    obtain ⟨front, b, rfl⟩ : ∃ front b, bytes = front ++ [b] := by
      rcases List.eq_nil_or_concat bytes with rfl | ⟨front, b, rfl⟩
      · simp at h
      · exact ⟨front, b, by simp⟩
    have hb : b.toNat < 256 := b.toNat_lt
    have hdiv : (value front * 256 + b.toNat) / 256 = value front := by omega
    have hlen : front.length = w := by simpa using h
    rw [value_concat, bigEndian, hdiv, ih front hlen]
    have : UInt8.ofNat (value front * 256 + b.toNat) = b := by
      apply UInt8.toNat_inj.1
      rw [UInt8.toNat_ofNat']
      omega
    rw [this]

theorem value_lt (bytes : List UInt8) : value bytes < 256 ^ bytes.length := by
  have h := value_bigEndian bytes.length (value bytes)
  rw [bigEndian_value] at h
  rw [h]
  exact Nat.mod_lt _ (Nat.pow_pos (by decide))

/-- A number in at most eight bytes is a word. -/
theorem toNat_ofNat_value {bytes : List UInt8} (h : bytes.length ≤ 8) :
    (UInt64.ofNat (value bytes)).toNat = value bytes := by
  have hpow : 256 ^ bytes.length ≤ 256 ^ 8 := Nat.pow_le_pow_right (by decide) h
  exact UInt64.toNat_ofNat_of_lt' (Nat.lt_of_lt_of_le (value_lt bytes) hpow)

/-- Only the low bytes of a number are written. -/
theorem bigEndian_mod (width n : Nat) : bigEndian width (n % 256 ^ width) = bigEndian width n := by
  have h := bigEndian_value (bigEndian width n)
  rwa [length_bigEndian, value_bigEndian] at h

end Systolic.Bytes
