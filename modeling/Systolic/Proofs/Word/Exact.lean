import Systolic.Proofs.Word.Wrap

/-!
# Registers and exact numbers

`Word.kept bits z` is what a register of `bits` bits keeps of the exact number `z`: its balanced residue (`toInt_kept`).
Cutting a sum at every step is the same as cutting the exact sum once (`wrap_add_kept`, `wrap_mul_add_kept`), whatever
the width.
-/

namespace Systolic.Word

/-- What a register of `bits` bits keeps of the exact number `z`. -/
def kept (bits : Nat) (z : Int) : Word := wrap bits (Int64.ofInt z)

/-- A register that is as wide as a word keeps the word, and so does one without a width. -/
theorem wrap_eq_self {bits : Nat} (h : bits = 0 ∨ 64 ≤ bits) (v : Word) : wrap bits v = v := by
  have hs : Int64.ofNat (64 - bits) = 0 ∨ Int64.ofNat (64 - bits) = 64 := by
    rcases h with rfl | h
    · exact Or.inr rfl
    · left
      rw [Nat.sub_eq_zero_of_le h]
      rfl
  unfold wrap
  rcases hs with hs | hs
  · rw [hs]
    exact Int64.toBitVec_inj.1 (by simp)
  · rw [hs]
    exact Int64.toBitVec_inj.1 (by simp)

theorem toInt_kept {bits : Nat} (h0 : 0 < bits) (h1 : bits ≤ 64) (z : Int) :
    (kept bits z).toInt = z.bmod (2 ^ bits) := by
  rw [kept, toInt_wrap h0 h1, Int64.toInt_ofInt]
  exact Int.bmod_bmod_of_dvd (Nat.pow_dvd_pow 2 h1)

@[simp] theorem kept_zero (bits : Nat) : kept bits 0 = 0 := by
  by_cases h : bits = 0 ∨ 64 ≤ bits
  · exact wrap_eq_self h _
  · exact Int64.toInt_inj.1 (by rw [toInt_kept (by omega) (by omega)]; simp)

/-- What a register keeps may stand for the exact number in a sum that is cut again. -/
theorem kept_toInt_add (bits : Nat) (y z : Int) : kept bits ((kept bits y).toInt + z) = kept bits (y + z) := by
  by_cases h : bits = 0 ∨ 64 ≤ bits
  · simp only [kept, wrap_eq_self h, Int64.ofInt_add, Int64.ofInt_toInt]
  · have h0 : 0 < bits := by omega
    have h1 : bits ≤ 64 := by omega
    apply Int64.toInt_inj.1
    rw [toInt_kept h0 h1, toInt_kept h0 h1, toInt_kept h0 h1, Int.bmod_add_bmod]

/-- Adding to what a register keeps and cutting again is cutting the exact sum once. -/
theorem wrap_add_kept (bits : Nat) (v : Word) (z : Int) : wrap bits (v + kept bits z) = kept bits (v.toInt + z) := by
  by_cases h : bits = 0 ∨ 64 ≤ bits
  · simp only [kept, wrap_eq_self h, Int64.ofInt_add, Int64.ofInt_toInt]
  · have h0 : 0 < bits := by omega
    have h1 : bits ≤ 64 := by omega
    apply Int64.toInt_inj.1
    rw [toInt_wrap h0 h1, toInt_kept h0 h1, Int64.toInt_add, Int.bmod_bmod_of_dvd (Nat.pow_dvd_pow 2 h1),
      toInt_kept h0 h1, Int.add_bmod_bmod]

/-- One multiply-accumulate step, on exact numbers. -/
theorem wrap_mul_add_kept (bits : Nat) (a b : Word) (z : Int) :
    wrap bits (a * b + kept bits z) = kept bits (a.toInt * b.toInt + z) := by
  by_cases h : bits = 0 ∨ 64 ≤ bits
  · simp only [kept, wrap_eq_self h, Int64.ofInt_add, Int64.ofInt_mul, Int64.ofInt_toInt]
  · have h0 : 0 < bits := by omega
    have h1 : bits ≤ 64 := by omega
    rw [wrap_add_kept]
    apply Int64.toInt_inj.1
    rw [toInt_kept h0 h1, toInt_kept h0 h1, Int64.toInt_mul, ← Int.bmod_add_bmod,
      Int.bmod_bmod_of_dvd (Nat.pow_dvd_pow 2 h1), Int.bmod_add_bmod]

end Systolic.Word
