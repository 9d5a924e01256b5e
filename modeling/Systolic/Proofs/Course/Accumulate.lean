import Systolic.Proofs.Course.Multiply
import Systolic.Proofs.Course.Settle

/-!
# Multiplications that settle

The rows of a multiplication reach the columns of the accumulators one cycle apart, so that several rows are under way
at once. Seen from one column they still come one after the other: `N + 1 + c` cycles after its push, column `c` holds
what the reference leaves in it after so many rows (`elem_multiply`). When the busy time of the command is over, every
column has seen every row (`Begins.multiply`).
-/

namespace Systolic

/-! ## Rows of the reference -/

namespace Sequential

variable {chip : Chip} {pad : RowStore} {tile : Tile} {m : Multiplication} {acc : AccStore}

theorem length_multiplyRow (overwrite : Bool) (x : Row) (addr : UInt64) :
    (multiplyRow chip tile overwrite x acc addr).length = chip.size := by
  simp [multiplyRow]

theorem fits_multiplyRows (h : acc.Fits chip.size) (n : Nat) : (multiplyRows chip pad tile m acc n).Fits chip.size := by
  induction n with
  | zero => exact h
  | succ n ih => exact ih.writeRow _ (length_multiplyRow _ _ _)

theorem depth_multiplyRows (n : Nat) : (multiplyRows chip pad tile m acc n).depth = acc.depth := by
  induction n with
  | zero => rfl
  | succ n ih => exact (AccStore.depth_writeRow _ _ _).trans ih

theorem slot_multiplyRows (n : Nat) (addr : UInt64) :
    (multiplyRows chip pad tile m acc n).slot addr = acc.slot addr := by
  rw [AccStore.slot, depth_multiplyRows, AccStore.slot]

/-- What row `n` leaves in a column. -/
theorem elem_multiplyRows_succ (h : acc.Fits chip.size) {c : Nat} (hc : c < chip.size) (n k : Nat) :
    (multiplyRows chip pad tile m acc (n + 1)).elem c k =
      if k = acc.slot (m.accAddr + UInt64.ofNat n) then
        if m.overwrite then tile.product chip.accWidth (pad.read (m.padAddr + UInt64.ofNat n)) c
        else Word.wrap chip.accWidth ((multiplyRows chip pad tile m acc n).read c (m.accAddr + UInt64.ofNat n) +
          tile.product chip.accWidth (pad.read (m.padAddr + UInt64.ofNat n)) c)
      else (multiplyRows chip pad tile m acc n).elem c k := by
  rw [multiplyRows, AccStore.elem_writeRow (fits_multiplyRows h n) _ (length_multiplyRow _ _ _), slot_multiplyRows]
  simp [multiplyRow, hc]

end Sequential

namespace Course

variable {C : Course}

/-- A column at which no row arrives for a while keeps its elements. -/
theorem elem_acc_of_quiet {c t n : Nat} (h : ∀ j < n, C.arriving c (t + j) = none) (k : Nat) :
    (C.memories (t + n)).acc.elem c k = (C.memories t).acc.elem c k := by
  induction n with
  | zero => rfl
  | succ n ih =>
    rw [← Nat.add_assoc, elem_acc_of_none (h n (Nat.lt_succ_self n))]
    exact ih fun j hj => h j (by omega)

section Multiply

variable {d : Nat} {m : Multiplication} (hw : C.ReadsFit) (hissue : C.issue (d + 1) = some (.multiply m))
  (hfit : (Command.multiply m).SpanFits C.chip)
  (hpad : ∀ k < m.length.toNat, (C.memories (d + 1 + k)).pad = (C.memories (d + 1)).pad)
include hw hissue hfit

/-- The tile that the rows of the multiplication meet. -/
theorem sums_multiply {store : TileStore} (hfix : C.supply.Fixed store) {k c : Nat} (hk : k < m.length.toNat)
    (hc : c < C.chip.size) (hq : C.QuietBefore (d + 1 + k + C.chip.size + 1 + c)) :
    (C.array.output (d + 1 + k + C.chip.size + 1 + c)).sums[c]? = some (Tile.product C.chip.accWidth
      ((C.memories (d + 1 + k)).pad.read (m.padAddr + UInt64.ofNat k))
      (Tile.inUse C.chip.size (C.supply.tile store) (C.switchCount (d + 1))) c) := by
  have hsum := sums_array hw hfix (row?_of_issue hissue hfit hk) hc hq
  rwa [switched_rows, switchCount_busy hissue hfit (by simp only [Chip.matrixSpan]; omega)] at hsum

variable (hdrained : C.Drained (d + 1))
include hdrained hpad

/-- **One column.** `N + 1 + c` cycles after the push of row `n`, column `c` holds what the rows before it leave. -/
theorem elem_multiply {store : TileStore} (hfix : C.supply.Fixed store)
    (hq : C.QuietBefore (d + 1 + m.length.toNat + 2 * C.chip.size)) {c : Nat} (hc : c < C.chip.size) :
    ∀ n ≤ m.length.toNat, ∀ k, (C.memories (d + 1 + n + (C.chip.size + 1 + c))).acc.elem c k =
      (Sequential.multiplyRows C.chip (C.memories (d + 1)).pad
        (Tile.inUse C.chip.size (C.supply.tile store) (C.switchCount (d + 1))) m
        (C.memories (d + 1)).acc n).elem c k := by
  intro n
  induction n with
  | zero =>
    intro _ k
    refine elem_acc_of_quiet (fun j hj => arriving_eq_none hc fun u hu => ?_) k
    by_contra hne
    have hu' := hdrained u (by omega) (Option.isSome_iff_ne_none.2 hne)
    omega
  | succ n ih =>
    intro hn k
    have hrow := row?_of_issue hissue hfit (show n < m.length.toNat by omega)
    have hsum := sums_multiply hw hissue hfit hfix (show n < m.length.toNat by omega) hc (hq.mono (by omega))
    rw [hpad n (by omega), show d + 1 + n + C.chip.size + 1 + c = d + 1 + n + (C.chip.size + 1 + c) by omega] at hsum
    have harrive : C.arriving c (d + 1 + n + (C.chip.size + 1 + c)) = (C.row? (d + 1 + n)).map (·.control) := by
      rw [arriving_eq hc, delayed_add]
    have hcommit := elem_acc_succ hc hsum k
    have hslot : ∀ t addr, (C.memories t).acc.slot addr = (C.memories (d + 1)).acc.slot addr := fun t addr => by
      rw [AccStore.slot, AccStore.slot, depth_acc, depth_acc]
    rw [harrive, hrow, Option.map_some] at hcommit
    simp only [hslot, AccStore.read_eq_elem, ih (by omega)] at hcommit
    rw [show d + 1 + (n + 1) + (C.chip.size + 1 + c) = d + 1 + n + (C.chip.size + 1 + c) + 1 by omega, hcommit,
      Sequential.elem_multiplyRows_succ (fits_free (d + 1)).acc hc, AccStore.read_eq_elem, Sequential.slot_multiplyRows]

/-- **All columns.** Two crossings of the array after its last row, a multiplication has left what the reference leaves,
with the tile of the switches until its dispatch, if no other row follows. -/
theorem acc_multiply {store : TileStore} (hfix : C.supply.Fixed store) {n : Nat}
    (hn : 2 * C.chip.size + m.length.toNat < n) (hq : C.QuietBefore (d + 1 + n))
    (hlast : ∀ u, d + 1 + m.length.toNat ≤ u → u < d + 1 + n → C.row? u = none) :
    (C.memories (d + 1 + n)).acc = Sequential.multiplyRows C.chip (C.memories (d + 1)).pad
      (Tile.inUse C.chip.size (C.supply.tile store) (C.switchCount (d + 1))) m (C.memories (d + 1)).acc
      m.length.toNat := by
  refine acc_ext (Sequential.fits_multiplyRows (fits_free (d + 1)).acc _)
    (by rw [Sequential.depth_multiplyRows, depth_acc, depth_acc]) fun c hc k => ?_
  rw [← elem_multiply hw hissue hfit hpad hdrained hfix (hq.mono (by omega)) hc _ (Nat.le_refl _),
    show d + 1 + n = d + 1 + m.length.toNat + (C.chip.size + 1 + c) + (n - m.length.toNat - (C.chip.size + 1 + c)) by
      omega]
  exact elem_acc_of_quiet (fun j hj => arriving_eq_none hc fun u hu => hlast u (by omega) (by omega)) k

end Multiply

/-- **Multiplications** leave the accumulators as the reference does, with the tile of the switches until then. -/
theorem Begins.multiply (hclosed : C.Closed) (hw : C.ReadsFit) {d : Nat} {m : Multiplication}
    (h : C.Begins (d + 1) (.multiply m))
    {store : TileStore} (hfix : C.supply.Fixed store)
    (hq : C.QuietBefore (d + 1 + C.chip.matrixSpan m.length)) :
    C.Settled (d + 1) (d + 1 + C.chip.matrixSpan m.length) (C.sequencer (d + 1)).pc (C.memories (d + 1)).pad
      (C.memories (d + 1)).host (Sequential.multiplyRows C.chip (C.memories (d + 1)).pad
        (Tile.inUse C.chip.size (C.supply.tile store) (C.switchCount (d + 1))) m (C.memories (d + 1)).acc
        m.length.toNat) := by
  have hD : C.chip.matrixSpan m.length = 2 * C.chip.size + m.length.toNat + 2 := rfl
  have hheld := h.held fun a ha => by cases ha
  obtain ⟨hact, hacts⟩ := h.acts hheld.undisturbed fun a ha => by cases ha
  obtain ⟨hlink, hlinks⟩ := h.link hheld.undisturbed rfl
  have hpad : ∀ k ≤ C.chip.matrixSpan m.length, (C.memories (d + 1 + k)).pad = (C.memories (d + 1)).pad :=
    fun k hk => pad_eq hclosed (fun j hj => by rw [hacts j (Nat.lt_of_lt_of_le hj hk)])
      fun j hj => (hlinks j (Nat.lt_of_lt_of_le hj hk)).1
  have hhost := host_eq hclosed fun j hj => (hlinks j hj).2
  obtain ⟨hrows, hlast⟩ := rows_after h.issue h.fits (n := C.chip.matrixSpan m.length) (by omega) fun j h0 hj =>
    multiplication?_eq_none h.issue h.fits h0 (Nat.le_of_lt hj)
  have hdrained := drained_of_rows (s := d + 1 + m.length.toNat) (by omega) hlast
  have hacc := acc_multiply hw h.issue h.fits (fun k hk => hpad k (by omega)) h.units.drained hfix (by omega) hq hlast
  have hs := h.settled hheld ⟨hact, hrows, hlink, hdrained⟩ fun hzero => by
    rw [show (Command.multiply m).span C.chip = C.chip.matrixSpan m.length from rfl] at hzero
    omega
  rw [show (Command.multiply m).span C.chip = C.chip.matrixSpan m.length from rfl] at hs hhost
  rwa [hpad _ (Nat.le_refl _), hhost, hacc] at hs

end Course

end Systolic
