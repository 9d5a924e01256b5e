import Systolic.Word

/-!
# Offsets of rows

Units step through rows by adding one to an address and taking one from the count of the rows that are left. Row `i`
stands at the address plus `i`, with the count minus `i` left.
-/

namespace Systolic

theorem toNat_pos_iff {n : UInt64} : 0 < n.toNat ↔ n ≠ 0 := by
  rw [Nat.pos_iff_ne_zero, ← UInt64.toNat_zero, Ne, UInt64.toNat_inj]

theorem add_ofNat_succ (a : UInt64) (i : Nat) : a + UInt64.ofNat i + 1 = a + UInt64.ofNat (i + 1) := by
  rw [UInt64.add_assoc, UInt64.ofNat_add]
  rfl

theorem sub_ofNat_succ (n : UInt64) (i : Nat) : n - UInt64.ofNat i - 1 = n - UInt64.ofNat (i + 1) := by
  rw [UInt64.sub_eq_iff_eq_add, UInt64.sub_eq_iff_eq_add, UInt64.add_assoc, UInt64.add_comm 1,
    show UInt64.ofNat i + 1 = UInt64.ofNat (i + 1) by rw [UInt64.ofNat_add]; rfl, UInt64.sub_add_cancel]

theorem toNat_sub_ofNat {n : UInt64} {i : Nat} (h : i ≤ n.toNat) : (n - UInt64.ofNat i).toNat = n.toNat - i := by
  have hi : (UInt64.ofNat i).toNat = i := UInt64.toNat_ofNat_of_lt (Nat.lt_of_le_of_lt h n.toNat_lt)
  rw [UInt64.toNat_sub_of_le _ _ (by rw [UInt64.le_iff_toNat_le, hi]; exact h), hi]

theorem sub_ofNat_eq_zero_iff {n : UInt64} {i : Nat} (h : i ≤ n.toNat) : n - UInt64.ofNat i = 0 ↔ i = n.toNat := by
  rw [← UInt64.toNat_inj, toNat_sub_ofNat h]
  simp
  omega

theorem one_lt_sub_ofNat_iff {n : UInt64} {i : Nat} (h : i ≤ n.toNat) : 1 < n - UInt64.ofNat i ↔ i + 1 < n.toNat := by
  rw [UInt64.lt_iff_toNat_lt, toNat_sub_ofNat h]
  simp
  omega

/-- While more than one row is left, one row less is one less. -/
theorem toNat_sub_one {n : UInt64} (h : 1 < n) : (n - 1).toNat + 1 = n.toNat := by
  have hlt : 1 < n.toNat := UInt64.lt_iff_toNat_lt.1 h
  have hsub : (n - 1).toNat = n.toNat - 1 := toNat_sub_ofNat (i := 1) (Nat.le_of_lt hlt)
  omega

end Systolic
