import Mathlib.Algebra.BigOperators.Group.List.Basic
import Mathlib.Data.Int.ModEq
import Systolic.Pipeline.ControlChain
import Systolic.Pipeline.Mesh
import Systolic.Proofs.Storage.Shape
import Systolic.Proofs.Word.Exact
import Systolic.Proofs.Word.Signed

/-!
# Sums that are cut at every step

Every cell of a column cuts the partial sum that it hands down, and an accumulator cuts its total with every sum that it
takes in. Neither matters: what comes out is the exact sum of the products, cut once (`Cell.columnSum_eq`,
`Word.accumulate_kept`), for products of any words and for registers up to the width of a word. `Cell.truncated_sums` says
so by congruences.
-/

namespace Systolic

namespace Word

variable {bits : Nat}

/-- What a register keeps of an exact number is the number of its width that is congruent to it. -/
theorem eq_toInt_kept_iff (h0 : 0 < bits) (h1 : bits ≤ 64) {x z : Int} :
    z = (kept bits x).toInt ↔ -2 ^ (bits - 1) ≤ z ∧ z < 2 ^ (bits - 1) ∧ z ≡ x [ZMOD 2 ^ bits] := by
  obtain ⟨k, rfl⟩ : ∃ k, bits = k + 1 := ⟨bits - 1, by omega⟩
  obtain ⟨hlow, hhigh⟩ := half_two_pow k
  rw [toInt_kept h0 h1, eq_comm, Int.bmod_eq_iff (Nat.two_pow_pos _), hlow, hhigh, Int.modEq_comm,
    Int.modEq_iff_dvd, Nat.add_sub_cancel]
  simp

/-- A register that holds a number of its width has cut it already. -/
theorem kept_toInt {v : Word} (h : Signed bits v) (h0 : 0 < bits) (h1 : bits ≤ 64) : kept bits v.toInt = v := by
  rw [kept, Int64.ofInt_toInt]
  exact h.wrap_eq (Nat.le_refl bits) h0 h1

/-- An accumulator of `bits` bits that holds `old`, once it has taken in `sums` one after the other. -/
def accumulate (bits : Nat) (old : Word) (sums : List Word) : Word :=
  sums.foldl (fun old sum => wrap bits (old + sum)) old

/-- On top of what a register keeps, sums add up. -/
theorem accumulate_kept (y : Int) (zs : List Int) :
    accumulate bits (kept bits y) (zs.map (kept bits)) = kept bits (y + zs.sum) := by
  induction zs generalizing y with
  | nil => simp [accumulate]
  | cons z zs ih =>
    calc accumulate bits (kept bits y) ((z :: zs).map (kept bits))
        = accumulate bits (wrap bits (kept bits y + kept bits z)) (zs.map (kept bits)) := rfl
      _ = accumulate bits (kept bits (y + z)) (zs.map (kept bits)) := by rw [wrap_add_kept, kept_toInt_add]
      _ = kept bits (y + (z :: zs).sum) := by rw [ih, List.sum_cons, Int.add_assoc]

/-- An accumulator that holds anything cuts it with the first sum that it takes in. -/
theorem accumulate_eq {old : Word} {zs : List Int} (h : zs ≠ [] ∨ Signed bits old) (h0 : 0 < bits) (h1 : bits ≤ 64) :
    accumulate bits old (zs.map (kept bits)) = kept bits (old.toInt + zs.sum) := by
  cases zs with
  | nil =>
    have hold : Signed bits old := h.resolve_left (not_not_intro rfl)
    rw [List.sum_nil, Int.add_zero, kept_toInt hold h0 h1]
    rfl
  | cons z zs =>
    have hfirst : accumulate bits old ((z :: zs).map (kept bits)) =
        accumulate bits (kept bits (old.toInt + z)) (zs.map (kept bits)) := by
      rw [← wrap_add_kept]
      rfl
    rw [hfirst, accumulate_kept, List.sum_cons, Int.add_assoc]

end Word

namespace ControlChain

/-- The accumulators once column `c` has taken in `sums` with one control, one after the other. -/
def takeIn (accWidth c : Nat) (control : AccControl) (store : AccStore) (sums : List Word) : AccStore :=
  sums.foldl (fun store sum => store.write (write accWidth store c sum control)) store

/-- A control that does not overwrite makes an accumulator of the element that it addresses. -/
theorem read_takeIn {store : AccStore} {size c : Nat} (hfits : store.Fits size) (hc : c < size) (accWidth : Nat)
    {control : AccControl} (hadd : control.overwrite = false) (sums : List Word) :
    (takeIn accWidth c control store sums).read c control.accAddr =
      Word.accumulate accWidth (store.read c control.accAddr) sums := by
  induction sums generalizing store with
  | nil => rfl
  | cons sum sums ih =>
    have hcolumn : c < (store.readRow control.accAddr).length := by
      rw [hfits.length_readRow]
      exact hc
    have hfirst : (store.write (write accWidth store c sum control)).read c control.accAddr =
        Word.wrap accWidth (store.read c control.accAddr + sum) := by
      rw [AccStore.read_write hfits.depth hcolumn, if_pos ⟨rfl, rfl⟩, write, hadd]
      rfl
    have hrest := ih (hfits.write (write accWidth store c sum control))
    rw [hfirst] at hrest
    exact hrest

end ControlChain

namespace Cell

/-- The sum below a column of cells that starts from zero. A pair is the weight in use of a cell and the element that the
cell sees, from the top down. -/
def columnSum (bits : Nat) (column : List (Word × Word)) : Word :=
  column.foldl (fun above p => (Cell.step 0 bits { current := p.1 } { data := p.2 } above {}).sum) 0

/-- The sum of the products, as an exact number. -/
def exactSum (column : List (Word × Word)) : Int := (column.map fun p => p.1.toInt * p.2.toInt).sum

/-- A cell adds the product of its weight in use to what comes from above. -/
theorem sum_step (size bits : Nat) (cell : Cell) (left : Lane) (above : Word) (feed : Feed) :
    (cell.step size bits left above feed).sum =
      Word.wrap bits ((if left.valid && left.switch then cell.staged else cell.current) * left.data + above) := rfl

/-- **One column.** Cutting below every cell is cutting the exact sum once. -/
theorem columnSum_eq (bits : Nat) (column : List (Word × Word)) :
    columnSum bits column = Word.kept bits (exactSum column) := by
  suffices hfrom : ∀ y, column.foldl (fun above p => (Cell.step 0 bits { current := p.1 } { data := p.2 } above {}).sum)
      (Word.kept bits y) = Word.kept bits (y + exactSum column) by
    have h := hfrom 0
    rwa [Word.kept_zero, Int.zero_add] at h
  induction column with
  | nil => simp [exactSum]
  | cons p column ih =>
    intro y
    have hcell : (Cell.step 0 bits { current := p.1 } { data := p.2 } (Word.kept bits y) {}).sum =
        Word.kept bits (p.1.toInt * p.2.toInt + y) := by
      rw [sum_step, ← Word.wrap_mul_add_kept]
      rfl
    rw [List.foldl_cons, hcell, ih, exactSum, exactSum, List.map_cons, List.sum_cons]
    congr 1
    omega

/-- **Cutting at every step is cutting once**, for registers of one to 64 bits:

- the sum below a column of cells is the one number of the register's width that is congruent to the exact sum of the
  products;
- an accumulator that takes in such sums, any number of them, holds the one number of its width that is congruent to the
  exact total, if it takes in at least one or starts with a number of its width;
- the order in which it takes them in does not matter;
- an element of the accumulators is such an accumulator, as long as it is not overwritten. -/
theorem truncated_sums {bits : Nat} (h0 : 1 ≤ bits) (h1 : bits ≤ 64) :
    (∀ (column : List (Word × Word)) (z : Int), z = (columnSum bits column).toInt ↔
      -2 ^ (bits - 1) ≤ z ∧ z < 2 ^ (bits - 1) ∧ z ≡ exactSum column [ZMOD 2 ^ bits]) ∧
    (∀ (old : Word) (columns : List (List (Word × Word))), columns ≠ [] ∨ Word.Signed bits old →
      (∀ z : Int, z = (Word.accumulate bits old (columns.map (columnSum bits))).toInt ↔
        -2 ^ (bits - 1) ≤ z ∧ z < 2 ^ (bits - 1) ∧
          z ≡ old.toInt + (columns.map exactSum).sum [ZMOD 2 ^ bits]) ∧
      ∀ order : List (List (Word × Word)), order.Perm columns →
        Word.accumulate bits old (order.map (columnSum bits)) =
          Word.accumulate bits old (columns.map (columnSum bits))) ∧
    ∀ (store : AccStore) (size c : Nat) (control : AccControl) (sums : List Word), store.Fits size → c < size →
      control.overwrite = false → (ControlChain.takeIn bits c control store sums).read c control.accAddr =
        Word.accumulate bits (store.read c control.accAddr) sums := by
  have htotal : ∀ (old : Word) (columns : List (List (Word × Word))), columns ≠ [] ∨ Word.Signed bits old →
      Word.accumulate bits old (columns.map (columnSum bits)) =
        Word.kept bits (old.toInt + (columns.map exactSum).sum) := by
    intro old columns h
    have hsums : columns.map (columnSum bits) = (columns.map exactSum).map (Word.kept bits) := by
      rw [List.map_map]
      exact List.map_congr_left fun column _ => columnSum_eq bits column
    rw [hsums]
    exact Word.accumulate_eq (h.imp_left fun hne => by simpa using hne) h0 h1
  refine ⟨fun column z => ?_, fun old columns h => ⟨fun z => ?_, fun order hperm => ?_⟩,
    fun store size c control sums hfits hc hadd => ControlChain.read_takeIn hfits hc bits hadd sums⟩
  · rw [columnSum_eq]
    exact Word.eq_toInt_kept_iff h0 h1
  · rw [htotal old columns h]
    exact Word.eq_toInt_kept_iff h0 h1
  · have horder : order ≠ [] ∨ Word.Signed bits old :=
      h.imp_left fun hne hnil => hne (List.Perm.eq_nil (hnil ▸ hperm).symm)
    rw [htotal old order horder, htotal old columns h, (hperm.map exactSum).sum_eq]

/-- `-2 ^ 63` times `-1` is no word. Modulo `2 ^ 63` it is zero, so that 15 is left of the sum, and 22 on top of
`-2 ^ 63 + 7`. -/
theorem truncated_sums_extreme :
    (columnSum 63 [(Int64.minValue, -1), (3, 5)]).toInt = 15 ∧
      (Word.accumulate 63 (Int64.minValue + 7) [columnSum 63 [(Int64.minValue, -1), (3, 5)]]).toInt = 22 := by
  obtain ⟨hcolumn, haccumulate, -⟩ := truncated_sums (show 1 ≤ 63 by decide) (show 63 ≤ 64 by decide)
  constructor
  · exact ((hcolumn [(Int64.minValue, -1), (3, 5)] 15).2 ⟨by decide, by decide, by decide⟩).symm
  · have h := (haccumulate (Int64.minValue + 7) [[(Int64.minValue, -1), (3, 5)]] (Or.inl (by decide))).1 22
    exact (h.2 ⟨by decide, by decide, by decide⟩).symm

end Cell

end Systolic
