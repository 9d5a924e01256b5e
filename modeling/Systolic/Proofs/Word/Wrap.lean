import Mathlib.Algebra.Order.Ring.Int
import Systolic.Word

/-!
# What a register keeps of a word

A register of `bits` bits keeps the balanced residue of a word modulo `2 ^ bits` (`toInt_wrap`), and its unsigned reading
is the residue from zero on (`toNat_low`). Whether a wider register has held the word before makes no difference
(`wrap_wrap`).
-/

namespace Systolic.Word

theorem half_two_pow (k : Nat) :
    ((2 ^ (k + 1) : Nat) : Int) / 2 = 2 ^ k ∧ (((2 ^ (k + 1) : Nat) : Int) + 1) / 2 = 2 ^ k := by
  have h : ((2 ^ (k + 1) : Nat) : Int) = 2 * 2 ^ k := by simp [Int.pow_succ, Int.mul_comm]
  omega

/-- A balanced residue modulo `2 ^ (k + 1)` is a signed number of `k + 1` bits. -/
theorem bmod_two_pow_bounds (x : Int) (k : Nat) :
    -2 ^ k ≤ x.bmod (2 ^ (k + 1)) ∧ x.bmod (2 ^ (k + 1)) < 2 ^ k := by
  have h := half_two_pow k
  have hp : 0 < 2 ^ (k + 1) := Nat.two_pow_pos _
  exact ⟨h.1 ▸ Int.le_bmod hp, h.2 ▸ Int.bmod_lt hp⟩

/-- Shifting a number up shifts its balanced residue up. -/
theorem bmod_mul_two_pow (x : Int) (k g : Nat) :
    (x * 2 ^ g).bmod (2 ^ (k + 1 + g)) = x.bmod (2 ^ (k + 1)) * 2 ^ g := by
  have hg : (0 : Int) < 2 ^ g := Int.pow_pos (by decide)
  have hb := bmod_two_pow_bounds x k
  have h := half_two_pow (k + g)
  rw [show k + 1 + g = k + g + 1 by omega]
  refine (Int.bmod_eq_iff (Nat.two_pow_pos _)).2 ⟨?_, ?_, ?_⟩
  · rw [h.1, Int.pow_add, ← Int.neg_mul]
    exact Int.mul_le_mul_of_nonneg_right hb.1 (Int.le_of_lt hg)
  · rw [h.2, Int.pow_add]
    exact Int.mul_lt_mul_of_pos_right hb.2 hg
  · rw [← Int.sub_mul, show ((2 ^ (k + g + 1) : Nat) : Int) = ((2 ^ (k + 1) : Nat) : Int) * 2 ^ g by
      simp [← Int.pow_add, Nat.add_right_comm]]
    exact Int.mul_dvd_mul Int.dvd_bmod_sub_self (Int.dvd_refl _)

/-- A register of `bits` bits holds the balanced residue of what is written to it. -/
theorem toInt_wrap {bits : Nat} (h0 : 0 < bits) (h1 : bits ≤ 64) (v : Word) :
    (wrap bits v).toInt = v.toInt.bmod (2 ^ bits) := by
  obtain ⟨k, g, rfl, hg⟩ : ∃ k g, bits = k + 1 ∧ k + 1 + g = 64 := ⟨bits - 1, 64 - bits, by omega, by omega⟩
  have hgap : (Int64.ofNat (64 - (k + 1))).toBitVec.smod 64 = BitVec.ofNat 64 g := by
    rw [show 64 - (k + 1) = g by omega]
    have hlt : g < 64 := by omega
    clear hg h0 h1
    revert g; decide
  have hn : (BitVec.ofNat 64 g).toNat = g := by simp; omega
  rw [wrap, ← Int64.toInt_toBitVec, Int64.toBitVec_shiftRight, Int64.toBitVec_shiftLeft, hgap,
    BitVec.sshiftRight', BitVec.shiftLeft_eq', BitVec.toInt_sshiftRight, BitVec.toInt_shiftLeft, hn,
    ← Int64.toInt_toBitVec, BitVec.toInt_eq_toNat_bmod, Nat.shiftLeft_eq, Int.natCast_mul, Int.natCast_pow,
    Int.bmod_bmod_of_dvd (Nat.pow_dvd_pow 2 h1)]
  generalize (v.toBitVec.toNat : Int) = x
  rw [← hg, show ((2 : Nat) : Int) = 2 from rfl, bmod_mul_two_pow, Int.shiftRight_eq_div_pow, Int.natCast_pow]
  exact Int.mul_ediv_cancel _ (Int.ne_of_gt (Int.pow_pos (by decide)))

/-- A word and its unsigned reading have the same residues. -/
theorem toInt_eq_bmod (v : Word) : v.toInt = (v.toUInt64.toNat : Int).bmod (2 ^ 64) :=
  BitVec.toInt_eq_toNat_bmod v.toBitVec

theorem toInt_toInt64_ofNat (n : Nat) : (UInt64.ofNat n).toInt64.toInt = (n : Int).bmod (2 ^ 64) := by
  rw [toInt_eq_bmod, UInt64.toUInt64_toInt64, UInt64.toNat_ofNat', Int.natCast_emod, Int.emod_bmod]

/-- A register keeps of a word what it keeps of the unsigned reading. -/
theorem toInt_wrap_unsigned {bits : Nat} (h0 : 0 < bits) (h1 : bits ≤ 64) (v : Word) :
    (wrap bits v).toInt = (v.toUInt64.toNat : Int).bmod (2 ^ bits) := by
  rw [toInt_wrap h0 h1, toInt_eq_bmod, Int.bmod_bmod_of_dvd (Nat.pow_dvd_pow 2 h1)]

/-- A narrow register keeps the same of a word whether or not a wider one has held it before. -/
theorem wrap_wrap {bits width : Nat} (h0 : 0 < bits) (hw : bits ≤ width) (h1 : width ≤ 64) (v : Word) :
    wrap bits (wrap width v) = wrap bits v := by
  apply Int64.toInt_inj.1
  rw [toInt_wrap h0 (Nat.le_trans hw h1), toInt_wrap h0 (Nat.le_trans hw h1), toInt_wrap (Nat.lt_of_lt_of_le h0 hw) h1,
    Int.bmod_bmod_of_dvd (Nat.pow_dvd_pow 2 hw)]

theorem toNat_low (bits : Nat) (v : Word) : (low bits v).toNat = v.toUInt64.toNat % 2 ^ bits := by
  have h : v.toUInt64.toNat % 2 ^ bits < 2 ^ 64 :=
    Nat.lt_of_le_of_lt (Nat.mod_le _ _) v.toUInt64.toNat_lt
  rw [low, UInt64.toNat_ofNat']
  exact Nat.mod_eq_of_lt h

/-- The low bits of a word are its residue. -/
theorem low_eq_ofNat {bits : Nat} (h : bits ≤ 64) (v : Word) :
    low bits v = .ofNat (v.toInt % 2 ^ bits).toNat := by
  have hdvd : ((2 ^ bits : Nat) : Int) ∣ ((2 ^ 64 : Nat) : Int) := Int.natCast_dvd_natCast.2 (Nat.pow_dvd_pow 2 h)
  have hmod : v.toInt % 2 ^ bits = ((v.toUInt64.toNat % 2 ^ bits : Nat) : Int) := by
    calc v.toInt % 2 ^ bits
        = v.toInt % ((2 ^ 64 : Nat) : Int) % ((2 ^ bits : Nat) : Int) := by
          rw [Int.emod_emod_of_dvd _ hdvd]; simp
      _ = (v.toUInt64.toNat : Int) % ((2 ^ 64 : Nat) : Int) % ((2 ^ bits : Nat) : Int) := by
          rw [toInt_eq_bmod, Int.bmod_emod]
      _ = ((v.toUInt64.toNat % 2 ^ bits : Nat) : Int) := by rw [Int.emod_emod_of_dvd _ hdvd]; simp
  rw [low, hmod, Int.toNat_natCast]
  rfl

/-- A register keeps the low bits of a word. -/
theorem low_wrap {bits : Nat} (h0 : 0 < bits) (h1 : bits ≤ 64) (v : Word) : low bits (wrap bits v) = low bits v := by
  have h := Int.bmod_emod (x := v.toInt) (m := 2 ^ bits)
  rw [← toInt_wrap h0 h1, Int.natCast_pow] at h
  rw [low_eq_ofNat h1, low_eq_ofNat h1]
  exact congrArg (fun z : Int => UInt64.ofNat z.toNat) h

/-- The low bits of an address survive the cut to a signed element. -/
theorem low_wrap_toInt64 {bits : Nat} (h0 : 0 < bits) (h1 : bits ≤ 64) (target : UInt64) :
    low bits (wrap bits target.toInt64) = .ofNat (target.toNat % 2 ^ bits) := by
  rw [low_wrap h0 h1, low, UInt64.toUInt64_toInt64]
  rfl

/-- An offset is added to a program counter as an exact number, modulo `2 ^ 64`. -/
theorem toNat_offset (pc : UInt64) (v : Word) :
    ((pc + 1 + v.toUInt64).toNat : Int) = ((pc.toNat : Int) + 1 + v.toInt) % 2 ^ 64 := by
  have hv : v.toInt % 2 ^ 64 = (v.toUInt64.toNat : Int) % 2 ^ 64 := by
    rw [toInt_eq_bmod]
    exact Int.bmod_emod
  rw [UInt64.toNat_add, UInt64.toNat_add]
  have hone : (1 : UInt64).toNat = 1 := rfl
  omega

end Systolic.Word
