import Mathlib.Data.Nat.Nth
import Systolic.Proofs.Queue.Supply

/-!
# Which tile stands where

The tile reader and the queue over a weight store that does not change. While no burst is lost, tiles stand in the slots
in the order in which they were requested: the tile at the front is the one that was requested after as many tiles as are
gone, and likewise for the other slots and the elements in slot 1 (`holding`).
-/

namespace Systolic.Supply

variable (S : Supply)

/-- The address of request `k`, counted from zero. -/
noncomputable def named (k : Nat) : UInt64 := (S.request (Nat.nth (fun u => (S.request u).isSome = true) k)).getD 0

/-- The tile of request `k` in `store`. -/
noncomputable def tile (store : TileStore) (k : Nat) : Tile := .ofRow S.chip.size (store.read (S.named k))

/-- The weight store stays as it is. -/
def Fixed (store : TileStore) : Prop := ∀ t, S.weights t = store

/-- What stands in the slots and in the reader in cycle `t`. -/
structure Holding (store : TileStore) (t : Nat) : Prop where
  front : ∀ T, (S.queue t).front = some T → T = S.tile store (S.gone t)
  third : ∀ T, (S.queue t).third = some T → T = S.tile store (S.atFront t)
  second : ∀ T, (S.queue t).second = some T → T = S.tile store (S.atThird t)
  length : (S.queue t).fill.length = S.chip.size * S.chip.size
  filled : (S.queue t).filled ≤ S.chip.size * S.chip.size
  fill : (S.queue t).fill.take (S.queue t).filled =
    (store.read (S.named (S.atSecond t))).take (S.queue t).filled
  job : ∀ j, (S.reader t).job = some j → j.tile = S.named (S.complete t)

variable {S}

theorem named_requested {t : Nat} {a : UInt64} (h : S.request t = some a) : S.named (S.requested t) = a := by
  have hp : (S.request t).isSome = true := by simp [h]
  unfold named requested
  rw [Nat.nth_count hp, h]
  rfl

/-- Every event that has been counted happened in some cycle. -/
theorem exists_of_lt_count {p : Nat → Prop} [DecidablePred p] {n t : Nat} (h : n < Nat.count p t) :
    ∃ u < t, p u ∧ Nat.count p u = n := by
  induction t with
  | zero => rw [Nat.count_zero] at h; cases h
  | succ t ih =>
    by_cases hlt : n < Nat.count p t
    · obtain ⟨u, hu, hp⟩ := ih hlt
      exact ⟨u, by omega, hp⟩
    · rw [Nat.count_succ] at h
      by_cases hp : p t
      · rw [if_pos hp] at h
        exact ⟨t, Nat.lt_succ_self t, hp, by omega⟩
      · rw [if_neg hp] at h
        omega

/-- Every tile that has been requested was named by a request. -/
theorem exists_request {n t : Nat} (h : n < S.requested t) :
    ∃ u < t, S.request u = some (S.named n) ∧ S.requested u = n := by
  obtain ⟨u, hu, hp, hn⟩ := exists_of_lt_count h
  obtain ⟨a, ha⟩ := Option.isSome_iff_exists.1 hp
  have hnamed := named_requested ha
  rw [show S.requested u = n from hn] at hnamed
  exact ⟨u, hu, hnamed ▸ ha, hn⟩

/-! ## The elements of slot 1 -/

section Append

variable {n filled : Nat} {fill : Row} (hl : fill.length = n * n) (hf : filled ≤ n * n) (burst : Row)
include hl hf

theorem length_append : (TileQueue.append n fill filled burst).length = n * n := by
  simp [TileQueue.append, hl]
  omega

theorem take_append : (TileQueue.append n fill filled burst).take (min (filled + burst.length) (n * n)) =
    fill.take filled ++ burst.take (n * n - filled) := by
  have hcut : burst.take (min (filled + burst.length) (n * n) - filled) = burst.take (n * n - filled) := by
    rw [List.take_eq_take_iff]
    omega
  simp only [TileQueue.append, Nat.min_eq_left hf, hcut]
  rw [List.take_left']
  simp [hl]
  omega

end Append

variable {store : TileStore}

/-- A burst carries the elements that follow those of the unfinished tile. -/
theorem burst_named (hfix : S.Fixed store) {t : Nat} (hS : S.Streaming t) (h : S.Holding store t) {b : Row}
    (hb : S.burst t = some b) :
    b = ((store.read (S.named (S.complete t))).drop (S.arrived t)).take S.chip.burstElems := by
  have harr := hS.arrived
  obtain ⟨j, hj, -, rfl⟩ := exists_job_of_burst hb
  rw [hj] at harr
  rw [hfix t, h.job j hj, harr]
  rfl

/-- What a cycle leaves of the job belongs to the same tile. -/
theorem tile_of_rest {t : Nat} {i j : TileReader.Job} (hj : (S.reader t).job = some j) (hi : S.rest t = some i) :
    i.tile = j.tile := by
  by_cases hwait : 0 < j.wait
  · rw [(wait_of_job hj hwait).2] at hi
    cases hi
    rfl
  · rw [(burst_of_job hj (by omega)).2] at hi
    split at hi <;> cases hi
    rfl

/-! ## One cycle of the slots -/

/-- A slot holds tile `i`, and the tile behind it is the next one. -/
theorem ripple_eq {f : Nat → Tile} {behind own : Option Tile} {leaves : Bool} {i : Nat}
    (hown : ∀ T, own = some T → T = f i) (hbehind : ∀ T, behind = some T → T = f (i + own.isSome.toNat)) (T : Tile)
    (hT : TileQueue.ripple behind own leaves = some T) : T = f (i + (leaves && own.isSome).toNat) := by
  cases own with
  | none =>
    rw [Option.isSome_none, Bool.and_false]
    exact hbehind T hT
  | some U =>
    cases leaves with
    | true => cases hT
    | false =>
      cases hT
      exact hown T rfl

theorem Holding.fill_succ (hr : S.Regular) (hfix : S.Fixed store) {t : Nat} (hS : S.Streaming t)
    (h : S.Holding store t) (hk : S.overflows t = false) :
    (S.queue (t + 1)).fill.length = S.chip.size * S.chip.size ∧
      (S.queue (t + 1)).filled ≤ S.chip.size * S.chip.size ∧
      (S.queue (t + 1)).fill.take (S.queue (t + 1)).filled =
        (store.read (S.named (S.atSecond (t + 1)))).take (S.queue (t + 1)).filled := by
  -- slot 1 as it is before the burst is appended
  obtain ⟨fill, filled, hfill, hfilled, hlen, hle, htake, harr⟩ : ∃ fill filled,
      (S.queue (t + 1)).fill = TileQueue.append S.chip.size fill filled ((S.burst t).getD []) ∧
      (S.queue (t + 1)).filled = min (filled + ((S.burst t).getD []).length) (S.chip.size * S.chip.size) ∧
      fill.length = S.chip.size * S.chip.size ∧ filled ≤ S.chip.size * S.chip.size ∧
      fill.take filled = (store.read (S.named (S.atSecond (t + 1)))).take filled ∧
      ((S.queue t).drains S.chip.size = S.full t → filled = S.arrived t) := by
    have hk' : ((S.burst t).isSome && (S.queue t).full S.chip.size && !(S.queue t).drains S.chip.size) = false := hk
    have hd : (S.queue t).drains S.chip.size = (S.full t && (S.queue t).second.isNone) := rfl
    cases hdr : (S.queue t).drains S.chip.size with
    | true =>
      refine ⟨List.replicate (S.chip.size * S.chip.size) 0, 0, ?_, ?_, by simp, Nat.zero_le _, rfl, fun hf => ?_⟩
      · simp [queue, TileQueue.step, hdr]
      · simp [filled_succ t hk, hdr]
      · simp [arrived, ← hf]
    | false =>
      rw [hdr] at hk'
      refine ⟨(S.queue t).fill, (S.queue t).filled, ?_, ?_, h.length, h.filled, ?_, fun hf => ?_⟩
      · simp only [queue, TileQueue.step, hk', hdr, Bool.false_eq_true, if_false]
      · simp [filled_succ t hk, hdr]
      · have hsec : S.atSecond (t + 1) = S.atSecond t := by
          rw [atSecond_succ, Bool.and_comm, ← hd, hdr]
          rfl
        rw [hsec, h.fill]
      · simp [arrived, ← hf]
  refine ⟨hfill ▸ length_append hlen hle _, hfilled ▸ Nat.min_le_right _ _, ?_⟩
  rw [hfill, hfilled, take_append hlen hle, htake]
  cases hb : S.burst t with
  | none => simp [Nat.min_eq_left hle]
  | some b =>
    have hdr := drains_of_burst hb hk
    have hbe := burst_named hfix hS h hb
    rw [← atSecond_of_burst hb hk, ← harr hdr] at hbe
    have hlb : b.length = min S.chip.burstElems (S.chip.size * S.chip.size - filled) := by
      have ht := hr.tiles t (S.named (S.atSecond (t + 1)))
      rw [hfix t] at ht
      simp [hbe, ht]
    have hsum : min (filled + b.length) (S.chip.size * S.chip.size) =
        filled + min (S.chip.size * S.chip.size - filled) S.chip.burstElems := by omega
    rw [Option.getD_some, hsum, List.take_add, hbe, List.take_take]

/-- A complete tile in slot 1 is the one behind those in the other slots. -/
theorem Holding.first (hr : S.Regular) (hfix : S.Fixed store) {t : Nat} (h : S.Holding store t) (T : Tile)
    (hT : (S.queue t).first S.chip.size = some T) : T = S.tile store (S.atSecond t) := by
  unfold TileQueue.first at hT
  split at hT
  · rename_i hf
    have hf' : S.chip.size * S.chip.size ≤ (S.queue t).filled := by simpa [TileQueue.full] using hf
    have hfill := h.fill
    have ht := hr.tiles t (S.named (S.atSecond t))
    rw [hfix t] at ht
    have hl := h.length
    rw [List.take_of_length_le (by omega), List.take_of_length_le (by omega)] at hfill
    cases hT
    rw [tile, hfill]
  · cases hT

theorem Holding.succ (hr : S.Regular) (hfix : S.Fixed store) {t : Nat} (hS : S.Streaming t) (h : S.Holding store t)
    (hk : S.overflows t = false) : S.Holding store (t + 1) := by
  obtain ⟨hlen, hle, htake⟩ := h.fill_succ hr hfix hS hk
  have hrest := (hS.rest hr hk).2.2
  have hfirst := h.first hr hfix
  refine ⟨?_, ?_, ?_, hlen, hle, htake, fun j hj => ?_⟩
  · rw [front_succ, gone_succ]
    exact ripple_eq h.front h.third
  · rw [third_succ, atFront_succ]
    exact ripple_eq h.third h.second
  · rw [second_succ, atThird_succ]
    exact ripple_eq h.second hfirst
  · rw [job_succ] at hj
    cases hreq : S.request t with
    | some a =>
      rw [hr.spaced t (by simp [hreq])] at hrest
      rw [hreq] at hj
      cases hj
      rw [← named_requested hreq, hrest]
      rfl
    | none =>
      rw [hreq] at hj
      have hj' : S.rest t = some j := hj
      rw [hj'] at hrest
      cases hi : (S.reader t).job with
      | none => rw [(burst_of_none hi).2] at hj'; cases hj'
      | some i =>
        have hnow := hS.requested
        rw [hi] at hnow
        simp only [Option.isSome_some] at hrest hnow
        rw [tile_of_rest hi hj', h.job i hi, show S.complete (t + 1) = S.complete t by omega]

/-- **The order of the tiles.** While no burst is lost, the slots hold the requested tiles in order. -/
theorem holding (hr : S.Regular) (hfix : S.Fixed store) {t : Nat} (hk : S.KeptBefore t) : S.Holding store t := by
  induction t with
  | zero => exact ⟨nofun, nofun, nofun, by simp [queue, TileQueue.empty], Nat.zero_le _, rfl, nofun⟩
  | succ t ih =>
    have hk' := hk.mono (Nat.le_succ t)
    exact (ih hk').succ hr hfix (streaming hr hk') (hk t (Nat.lt_succ_self t))

end Systolic.Supply
