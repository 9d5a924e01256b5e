import Systolic.Text.Bytes

/-!
# Pieces of a stream

A stream is cut into pieces by their place (`chunks_eq`). Joining the pieces of a stream that they use up gives it back
(`flatten_chunks`), and cutting what was joined from pieces of one width gives these pieces back (`chunks_flatMap`).
-/

namespace Systolic.Bytes

variable {α β : Type} {width count : Nat}

/-- Piece `k` starts behind `k` widths. -/
theorem chunks_eq (width count : Nat) (l : List α) :
    chunks width count l = (List.range count).map fun k => (l.drop (k * width)).take width := by
  induction count generalizing l with
  | zero => rfl
  | succ count ih =>
    rw [chunks, ih, List.range_succ_eq_map, List.map_cons, List.map_map, Nat.zero_mul, List.drop_zero]
    congr 1
    apply List.map_congr_left
    intro k _
    rw [Function.comp, List.drop_drop, Nat.succ_mul, Nat.add_comm]

@[simp] theorem length_chunks (width count : Nat) (l : List α) : (chunks width count l).length = count := by
  rw [chunks_eq, List.length_map, List.length_range]

theorem length_of_mem_chunks {l : List α} (h : l.length = count * width) :
    ∀ piece ∈ chunks width count l, piece.length = width := by
  intro piece hpiece
  rw [chunks_eq] at hpiece
  obtain ⟨k, hk, rfl⟩ := List.mem_map.1 hpiece
  have hle : (k + 1) * width ≤ count * width := Nat.mul_le_mul_right width (List.mem_range.1 hk)
  rw [Nat.succ_mul] at hle
  rw [List.length_take, List.length_drop, h]
  omega

theorem flatten_chunks {l : List α} (h : l.length = count * width) : (chunks width count l).flatten = l := by
  induction count generalizing l with
  | zero =>
    rw [Nat.zero_mul] at h
    exact (List.length_eq_zero_iff.1 h).symm
  | succ count ih =>
    have hrest : (l.drop width).length = count * width := by
      rw [List.length_drop, h, Nat.succ_mul, Nat.add_sub_cancel]
    rw [chunks, List.flatten_cons, ih hrest, List.take_append_drop]

variable {f : β → List α} {bs : List β} (h : ∀ b ∈ bs, (f b).length = width)
include h

theorem length_flatMap : (bs.flatMap f).length = bs.length * width := by
  induction bs with
  | nil => rw [List.flatMap_nil, List.length_nil, List.length_nil, Nat.zero_mul]
  | cons b bs ih =>
    rw [List.flatMap_cons, List.length_append, h b List.mem_cons_self, ih fun c hc => h c (List.mem_cons_of_mem b hc),
      List.length_cons, Nat.succ_mul, Nat.add_comm]

theorem chunks_flatMap : chunks width bs.length (bs.flatMap f) = bs.map f := by
  induction bs with
  | nil => rfl
  | cons b bs ih =>
    have hb := h b List.mem_cons_self
    rw [List.flatMap_cons, List.length_cons, chunks, List.take_left' hb, List.drop_left' hb,
      ih fun c hc => h c (List.mem_cons_of_mem b hc), List.map_cons]

end Systolic.Bytes
