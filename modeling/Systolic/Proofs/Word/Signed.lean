import Systolic.Proofs.Word.Wrap
import Systolic.Storage.Row

/-!
# Signed words

`Word.Signed bits v`: the word `v` is a signed number of `bits` bits. What a register keeps is one (`signed_wrap`), and
so are the small constants that the units make up (`signed_of_lt_eight`). A wider register keeps such a number as it is
(`Signed.wrap_eq`). A row is signed if its elements are (`Row.Signed`), which cutting, padding and replacing elements
keep.
-/

namespace Systolic

namespace Word

variable {bits : Nat}

/-- A signed number of `bits` bits. -/
def Signed (bits : Nat) (v : Word) : Prop := -2 ^ (bits - 1) ≤ v.toInt ∧ v.toInt < 2 ^ (bits - 1)

/-- What a register keeps of a word fits into the register. -/
theorem signed_wrap (h0 : 0 < bits) (h1 : bits ≤ 64) (v : Word) : Signed bits (wrap bits v) := by
  obtain ⟨k, rfl⟩ : ∃ k, bits = k + 1 := ⟨bits - 1, by omega⟩
  rw [Signed, toInt_wrap h0 h1]
  exact bmod_two_pow_bounds _ k

/-- Four bits are enough for the numbers below eight. -/
theorem signed_of_lt_eight {v : Word} (h : 4 ≤ bits) (h0 : 0 ≤ v.toInt) (h8 : v.toInt < 8) : Signed bits v := by
  have h3 : (2 : Int) ^ 3 ≤ 2 ^ (bits - 1) := by
    apply pow_le_pow_right₀
    · decide
    · omega
  constructor
  · apply Int.le_trans _ h0
    apply Int.neg_nonpos_of_nonneg
    exact Int.le_trans (by decide) h3
  · exact Int.lt_of_lt_of_le h8 h3

/-- A signed number fits into every register that is at least as wide. -/
theorem Signed.wrap_eq {width : Nat} {v : Word} (h : Signed bits v) (hw : bits ≤ width) (h0 : 0 < width)
    (h1 : width ≤ 64) : wrap width v = v := by
  obtain ⟨k, rfl⟩ : ∃ k, width = k + 1 := ⟨width - 1, by omega⟩
  have hhalf := half_two_pow k
  have hle : (2 : Int) ^ (bits - 1) ≤ 2 ^ k := by
    apply pow_le_pow_right₀
    · decide
    · omega
  apply Int64.toInt_inj.1
  rw [toInt_wrap h0 h1]
  apply Int.bmod_eq_of_le
  · rw [hhalf.1]
    exact Int.le_trans (Int.neg_le_neg hle) h.1
  · rw [hhalf.2]
    exact Int.lt_of_lt_of_le h.2 hle

theorem signed_zero (bits : Nat) : Signed bits 0 := by
  have h : (0 : Int) < 2 ^ (bits - 1) := Int.pow_pos (by decide)
  constructor
  · simp [Int.le_of_lt h]
  · simp [h]

end Word

namespace Row

variable {bits : Nat} {row : Row}

/-- Every element is a signed number of `bits` bits. -/
def Signed (bits : Nat) (row : Row) : Prop := ∀ v ∈ row, Word.Signed bits v

theorem signed_nil (bits : Nat) : Signed bits [] := by
  intro v hv
  cases hv

theorem signed_replicate (bits n : Nat) : Signed bits (List.replicate n 0) := by
  intro v hv
  rw [List.eq_of_mem_replicate hv]
  exact Word.signed_zero bits

theorem Signed.append {row' : Row} (h : row.Signed bits) (h' : row'.Signed bits) : Signed bits (row ++ row') := by
  intro v hv
  rcases List.mem_append.1 hv with hv | hv
  · exact h v hv
  · exact h' v hv

theorem Signed.take (h : row.Signed bits) (n : Nat) : Signed bits (row.take n) :=
  fun v hv => h v (List.mem_of_mem_take hv)

theorem Signed.drop (h : row.Signed bits) (n : Nat) : Signed bits (row.drop n) :=
  fun v hv => h v (List.mem_of_mem_drop hv)

/-- A row that is cut or padded to a width. -/
theorem Signed.fit (h : row.Signed bits) (width : Nat) : Signed bits (row.fit width) := by
  apply Signed.take
  apply h.append
  exact signed_replicate bits _

theorem Signed.set (h : row.Signed bits) {v : Word} (hv : Word.Signed bits v) (i : Nat) :
    Signed bits (row.set i v) := by
  intro u hu
  rcases List.mem_or_eq_of_mem_set hu with hu | rfl
  · exact h u hu
  · exact hv

/-- Past the end of a row a zero is read. -/
theorem Signed.getD (h : row.Signed bits) (i : Nat) : Word.Signed bits (row.getD i 0) := by
  rw [List.getD_eq_getElem?_getD]
  cases hi : row[i]? with
  | none => exact Word.signed_zero bits
  | some v => exact h v (List.mem_of_getElem? hi)

end Row

end Systolic
