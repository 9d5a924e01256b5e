import Systolic.Proofs.Mesh.Sums

/-!
# Rows through the skew lines into the array

The array behind its skew lines, from power-on. Rows are pushed in any cycles, some of them with a switch, and tiles
are offered at the front of a queue. While no hazard shows, every row leaves every column as its product with the tile
of the last switch up to this row (`sums_of_pushed_row`): rows before a switch see the old tile in every cell, and the
row that carries it the new one.
-/

namespace Systolic

namespace Mesh.Run

/-- The array behind skew lines into which `rows` are pushed. -/
def behindSkew (chip : Chip) (rows : Nat → Option MatrixRow) (front : Nat → Option Tile) : Run :=
  ⟨chip, fun t => (SkewLines.shown chip.size rows t).lanes, front⟩

variable {chip : Chip} {rows : Nat → Option MatrixRow} {front : Nat → Option Tile} {offered : Nat → Tile}

theorem fedBy_behindSkew : (behindSkew chip rows front).FedBy rows :=
  fun _ hr t => SkewLines.lane_shown chip.size rows hr t

/-- **Switching on the wavefront.** The row pushed in cycle `t` leaves column `c` in cycle `t + N + 1 + c` as its
product with the tile in use after the switches pushed up to this row. -/
theorem sums_of_pushed_row {t : Nat} {x : MatrixRow} (hx : rows t = some x) {c : Nat} (hc : c < chip.size)
    (ho : (behindSkew chip rows front).Offers offered (t + chip.size + 1 + c))
    (hz : ∀ u < t + chip.size + 1 + c, ((behindSkew chip rows front).output u).hazard = none) :
    ((behindSkew chip rows front).output (t + chip.size + 1 + c)).sums[c]? =
      some (Tile.product chip.accWidth x.data
        (Tile.inUse chip.size offered (MatrixRow.switched rows (t + 1))) c) :=
  sums_output fedBy_behindSkew hx hc ho hz

/-! ## Two tiles in a row -/

/-- Two tiles of four rows. -/
def twoTiles : Nat → Tile
  | 0 => .ofRow 4 [1, 2, 3, 4, 5, 6, 7, 8, 9, 10, 11, 12, 13, 14, 15, 16]
  | _ + 1 => .ofRow 4 [-1, 0, 0, 1, 0, -2, 2, 0, 0, 3, -3, 0, 4, 0, 0, -4]

/-- The second tile is programmed while rows still meet the first one; the row that is pushed in cycle 10 switches to
it. -/
def handOver : Run :=
  behindSkew { size := 4 }
    (fun t => match t with
      | 4 => some ⟨[9, 9, 9, 9], false, {}⟩
      | 5 => some ⟨[5, 6, 7, 8], true, {}⟩
      | 9 => some ⟨[1, 2, 3, 4], false, {}⟩
      | 10 => some ⟨[1, 2, 3, 4], true, {}⟩
      | _ => none)
    (fun t => if t ≤ 4 then some (twoTiles 0) else if t ≤ 10 then some (twoTiles 1) else none)

theorem offers_handOver (t : Nat) : handOver.Offers twoTiles t := by
  have hbound : ∀ t, (handOver.front t).isSome = true → t < 11 := by
    intro t h
    by_contra hlt
    simp [handOver, behindSkew, show ¬ t ≤ 4 by omega, show ¬ t ≤ 10 by omega] at h
  have hheld : ∀ t < 11, handOver.takes t = false → (handOver.front (t + 1)).isSome = true := by decide +kernel
  have hfront : ∀ t < 11, handOver.front t = some (twoTiles (handOver.taken t)) := by decide +kernel
  refine ⟨fun t h => hheld t (hbound t h), fun k => by cases k <;> rfl, fun u _ tile h => ?_⟩
  have ht := hfront u (hbound u (by simp [h]))
  exact Option.some.inj (h.symm.trans ht)

theorem sums_of_second_switch :
    handOver.Offers twoTiles 17 ∧ (∀ u < 17, (handOver.output u).hazard = none) ∧
      (handOver.output 17).sums[2]? = some (-5 : Word) := by
  have hz : ∀ u < 17, (handOver.output u).hazard = none := by decide +kernel
  refine ⟨offers_handOver 17, hz, ?_⟩
  have h := sums_of_pushed_row (t := 10) rfl (c := 2) (by decide) (offers_handOver 17) hz
  exact h.trans (by decide +kernel)

end Mesh.Run

end Systolic
