import Mathlib.Algebra.BigOperators.Group.Finset.Basic
import Systolic.Proofs.Mesh.Weights
import Systolic.Proofs.Word.Exact

/-!
# Products of rows and tiles

A row that is pushed in cycle `t` gathers its products with the weights of column `c` on its way down, whatever these
weights are (`sum_eq_gathered`), and leaves the array `N + 1 + c` cycles later (`getElem?_sums_output`). Without a hazard
they are the weights of one tile, the one in use after the switches up to this row, and what leaves is the product
(`sums_output`). Partial sums are cut in every cell; what is gathered is the exact sum cut once.
-/

namespace Systolic

/-- Element `c` of row `x` times `tile`, as a register of `bits` bits keeps it. -/
def Tile.product (bits : Nat) (x : Row) (tile : Tile) (c : Nat) : Word :=
  Word.kept bits (∑ r ∈ Finset.range tile.size, (x.getD r 0).toInt * (tile.get r c).toInt)

namespace MatrixRow

/-- Rows with a switch among those pushed before cycle `t`. -/
def switched (rows : Nat → Option MatrixRow) (t : Nat) : Nat := Nat.count (fun u => switches (rows u) = true) t

/-- What a row has gathered below `n` cells that multiply its elements by `weight`, as registers of `bits` bits keep it.
Where no row comes, there is nothing. -/
def gathered (bits n : Nat) (weight : Nat → Word) : Option MatrixRow → Word
  | some x => Word.kept bits (∑ i ∈ Finset.range n, (x.data.getD i 0).toInt * (weight i).toInt)
  | none => 0

variable {bits : Nat} {weight : Nat → Word}

@[simp] theorem gathered_zero (row? : Option MatrixRow) : gathered bits 0 weight row? = 0 := by
  cases row? <;> simp [gathered]

/-- One more cell. -/
theorem gathered_succ (n : Nat) (row? : Option MatrixRow) : gathered bits (n + 1) weight row? =
    Word.wrap bits (weight n * (SkewLines.entering row? n).data + gathered bits n weight row?) := by
  cases row? with
  | none =>
    have h := Word.wrap_mul_add_kept bits (weight n) 0 0
    simpa [gathered, SkewLines.entering] using h.symm
  | some x =>
    rw [gathered, gathered, Word.wrap_mul_add_kept, Finset.sum_range_succ, Int.mul_comm, Int.add_comm]
    rfl

end MatrixRow

namespace Mesh.Run

variable {R : Run} {rows : Nat → Option MatrixRow} {offered : Nat → Tile}

theorem size_inUse {t : Nat} (ho : R.Offers offered t) (k : Nat) :
    (Tile.inUse R.chip.size offered k).size = R.chip.size := by
  cases k with
  | zero => rfl
  | succ k => exact ho.size k

theorem entered_eq_switched (hrows : R.FedBy rows) (hN : 0 < R.chip.size) (t : Nat) :
    R.entered (t + 1) = MatrixRow.switched rows t := by
  have h : R.entered (t + 1) =
      Nat.count (fun u => delayed 1 (fun v => MatrixRow.switches (rows v)) u = true) (t + 1) := by
    simp only [entered, enters_rows hrows hN]
  rw [h, count_delayed]
  rfl

/-- What a cell adds to the sum from above: its weight after the cycle times the element it sees. -/
theorem sum_succ {r c : Nat} (hr : r < R.chip.size) (hc : c < R.chip.size) (t : Nat) :
    ((R.mesh (t + 1)).cell r c).sum = Word.wrap R.chip.accWidth
      (((R.mesh (t + 1)).cell r c).current * (R.seen r c t).data + R.above r c t) := by
  rw [cell_succ hr hc]
  rfl

/-- **Partial sums.** Below row `r` of column `c` stands what one row has gathered, with the weights that it met: the one
that was pushed `r + c + 2` cycles ago, if there was one. -/
theorem sum_eq_gathered (hrows : R.FedBy rows) {r c : Nat} (hr : r < R.chip.size) (hc : c < R.chip.size) (t : Nat) :
    ((R.mesh t).cell r c).sum = MatrixRow.gathered R.chip.accWidth (r + 1)
      (fun i => ((R.mesh (t + i - r)).cell i c).current) (delayed (r + c + 2) rows t) := by
  cases t with
  | zero =>
    rw [cell_zero, delayed_succ_zero]
    rfl
  | succ t =>
    have hseen : R.seen r c t = SkewLines.entering (delayed (r + c + 1) rows t) r := by
      rw [seen_rows hr hc hrows, map_delayed (fun row? => SkewLines.entering row? r) rfl]
    have habove : R.above r c t = MatrixRow.gathered R.chip.accWidth r
        (fun i => ((R.mesh (t + 1 + i - r)).cell i c).current) (delayed (r + c + 1) rows t) := by
      cases r with
      | zero => simp [above]
      | succ r =>
        rw [above, if_neg (Nat.succ_ne_zero r), Nat.add_sub_cancel, sum_eq_gathered hrows (by omega) hc t,
          show r + 1 + c + 1 = r + c + 2 by omega]
        simp only [show ∀ i, t + 1 + i - (r + 1) = t + i - r by omega]
    rw [sum_succ hr hc, delayed_succ_succ, MatrixRow.gathered_succ, hseen, habove, Nat.add_sub_cancel]

/-- **Sums.** What leaves column `c` is what the row pushed `N + 1 + c` cycles ago has gathered, if there was one. -/
theorem getElem?_sums_output (hrows : R.FedBy rows) {c : Nat} (hc : c < R.chip.size) (t : Nat) :
    (R.output t).sums[c]? = some (MatrixRow.gathered R.chip.accWidth R.chip.size
      (fun i => ((R.mesh (t + i + 1 - R.chip.size)).cell i c).current) (delayed (R.chip.size + 1 + c) rows t)) := by
  have hout : (R.output t).sums[c]? = some ((R.mesh t).cell (R.chip.size - 1) c).sum := by
    simp [output, step, hc]
  rw [hout, sum_eq_gathered hrows (by omega) hc, show R.chip.size - 1 + 1 = R.chip.size by omega,
    show R.chip.size - 1 + c + 2 = R.chip.size + 1 + c by omega]
  simp only [show ∀ i, t + i - (R.chip.size - 1) = t + i + 1 - R.chip.size by omega]

/-- **Products.** Without a hazard, the row that was pushed in cycle `t` leaves column `c` as its product with the tile in
use. -/
theorem sums_output (hrows : R.FedBy rows) {t : Nat} {x : MatrixRow} (hx : rows t = some x) {c : Nat}
    (hc : c < R.chip.size) (ho : R.Offers offered (t + R.chip.size + 1 + c))
    (hz : R.SafeBefore (t + R.chip.size + 1 + c)) :
    (R.output (t + R.chip.size + 1 + c)).sums[c]? = some (Tile.product R.chip.accWidth x.data
      (Tile.inUse R.chip.size offered (MatrixRow.switched rows (t + 1))) c) := by
  have hweight : ∀ i < R.chip.size,
      ((R.mesh (t + R.chip.size + 1 + c + i + 1 - R.chip.size)).cell i c).current =
        (Tile.inUse R.chip.size offered (MatrixRow.switched rows (t + 1))).get i c := by
    intro i hi
    rw [show t + R.chip.size + 1 + c + i + 1 - R.chip.size = t + i + c + 2 by omega,
      (weights hi hc hrows (ho.mono (by omega)) (hz.mono (by omega))).1,
      show t + i + c + 2 - (i + c) = t + 1 + 1 by omega, entered_eq_switched hrows (by omega)]
  have hpushed : delayed (R.chip.size + 1 + c) rows (t + R.chip.size + 1 + c) = some x := by
    rw [show t + R.chip.size + 1 + c = t + (R.chip.size + 1 + c) by omega, delayed_add, hx]
  rw [getElem?_sums_output hrows hc, hpushed, MatrixRow.gathered, Tile.product, size_inUse ho]
  refine congrArg (fun z => some (Word.kept R.chip.accWidth z)) (Finset.sum_congr rfl fun i hi => ?_)
  rw [hweight i (Finset.mem_range.1 hi)]

end Mesh.Run

end Systolic
