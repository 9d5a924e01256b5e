import Systolic.Proofs.Machine.Shape
import Systolic.Proofs.Queue.Stream

/-!
# Room for the first burst

Tiles move only into slots that are empty, so the room that a tile leaves at the front comes back to slot 1 as a bubble,
one slot per cycle, and a burst is lost before it arrives there: when slots 1 and 2 are full (`overflows_iff`). While no
burst comes, the queue does not get into this state (`Stuck.pred`), and it stays in it for two cycles only if all four
slots were taken at the start (`Stuck.occupancy`). Before the first burst of a tile there are at least two such cycles
(`burst_eq_none`), and the other bursts find slot 1 unfinished (`first_of_overflows`). So a slot that is free when a tile is
asked for is enough for it (`kept_of_room`), and what is full when a burst is lost was full two cycles before.
-/

namespace Systolic.Supply

variable (S : Supply)

/-- Slot 1 is full and cannot hand on its tile. -/
structure Stuck (t : Nat) : Prop where
  full : S.full t = true
  second : (S.queue t).second.isSome = true

/-- A request comes only after a cycle in which the reader had nothing to do. -/
structure Rested : Prop where
  zero : S.request 0 = none
  succ : ∀ t, (S.request (t + 1)).isSome = true → (S.reader t).job = none ∧ S.request t = none

variable {S} {q t : Nat} {a : UInt64}

/-! ## Cycles without a burst -/

theorem kept_of_burst (hb : S.burst t = none) : S.overflows t = false := by simp [overflows, TileQueue.step, hb]

/-- Without a burst slot 1 is full if it was so and could not hand on its tile. -/
theorem full_quiet_succ (hr : S.Regular) (hb : S.burst t = none) :
    S.full (t + 1) = (S.full t && (S.queue t).second.isSome) := by
  have hsq : 0 < S.chip.size * S.chip.size := Nat.mul_pos hr.size hr.size
  have hd : (S.queue t).drains S.chip.size = (S.full t && (S.queue t).second.isNone) := rfl
  have hf : S.full t = decide (S.chip.size * S.chip.size ≤ (S.queue t).filled) := rfl
  rw [full_succ t (kept_of_burst hb), hb, hd, hf]
  generalize S.chip.size * S.chip.size = n at hsq
  by_cases hle : n ≤ (S.queue t).filled <;> cases (S.queue t).second <;> simp [hle]
  omega

/-- A queue that is stuck was so before, unless a burst has come. -/
theorem Stuck.pred (hr : S.Regular) (hb : S.burst t = none) (h : S.Stuck (t + 1)) : S.Stuck t := by
  have hfull := h.full
  rw [full_quiet_succ hr hb, Bool.and_eq_true] at hfull
  exact ⟨hfull.1, hfull.2⟩

theorem isSome_second_succ (t : Nat) : (S.queue (t + 1)).second.isSome =
    if (S.queue t).second.isSome then (S.queue t).third.isSome else S.full t := by
  rw [second_succ, isSome_ripple, isSome_first, full]
  cases (S.queue t).third <;> rfl

theorem isSome_third_succ (t : Nat) : (S.queue (t + 1)).third.isSome =
    if (S.queue t).third.isSome then (S.queue t).front.isSome else (S.queue t).second.isSome := by
  rw [third_succ, isSome_ripple]
  cases (S.queue t).front <;> rfl

theorem isSome_front_succ (t : Nat) : (S.queue (t + 1)).front.isSome =
    if (S.queue t).front.isSome then !S.leaves t else (S.queue t).third.isSome := by
  rw [front_succ, isSome_ripple, leaves]
  cases (S.queue t).front <;> simp

theorem occupancy_eq (t : Nat) : (S.queue t).occupancy S.chip.size = (S.full t).toNat +
    (S.queue t).second.isSome.toNat + (S.queue t).third.isSome.toNat + (S.queue t).front.isSome.toNat := by
  rw [TileQueue.occupancy, TileQueue.slots, full, ← isSome_first]
  cases (S.queue t).first S.chip.size <;> cases (S.queue t).second <;> cases (S.queue t).third <;>
    cases (S.queue t).front <;> rfl

/-- **Stuck for two cycles.** All four slots were taken at their start, and they still are unless the front tile has left
in one of them. -/
theorem Stuck.occupancy (hr : S.Regular) (hb : S.burst t = none) (hb' : S.burst (t + 1) = none) (h : S.Stuck (t + 2)) :
    (S.queue t).occupancy S.chip.size = 4 ∧ (S.queue (t + 2)).occupancy S.chip.size =
      if S.leaves t = true ∨ S.leaves (t + 1) = true then 3 else 4 := by
  have h₁ := h.pred hr hb'
  have h₀ := h₁.pred hr hb
  -- a tile stays in slot 2 only if slot 3 is taken, and a tile in slot 3 only if slot 4 is
  have hthird : (S.queue t).third.isSome = true := by
    have hs := isSome_second_succ (S := S) t
    rwa [h₀.second, if_pos rfl, h₁.second, eq_comm] at hs
  have hthird' : (S.queue (t + 1)).third.isSome = true := by
    have hs := isSome_second_succ (S := S) (t + 1)
    rwa [h₁.second, if_pos rfl, h.second, eq_comm] at hs
  have hfront : (S.queue t).front.isSome = true := by
    have hs := isSome_third_succ (S := S) t
    rwa [hthird, if_pos rfl, hthird', eq_comm] at hs
  have hfront' : (S.queue (t + 1)).front.isSome = !S.leaves t := by rw [isSome_front_succ, if_pos hfront]
  have hleaves : S.leaves (t + 1) = (S.advance (t + 1) && (S.queue (t + 1)).front.isSome) := rfl
  constructor
  · rw [occupancy_eq, h₀.full, h₀.second, hthird, hfront]
    rfl
  · rw [occupancy_eq, h.full, h.second, isSome_third_succ (t + 1), isSome_front_succ (t + 1), hthird', hleaves, hfront']
    cases S.leaves t <;> cases S.advance (t + 1) <;> rfl

/-! ## Bursts -/

/-- No burst comes between a request and the first burst of its tile, nor in the cycle before the request. -/
theorem burst_eq_none (hr : S.Regular) (hs : S.Rested) (hq : S.request (q + 1) = some a) (hqt : q ≤ t)
    (ht : t < q + 2 + S.chip.latency) : S.burst t = none := by
  obtain ⟨hjob, hreq⟩ := hs.succ q (by rw [hq]; rfl)
  obtain ⟨hb, hrest⟩ := burst_of_none hjob
  obtain rfl | rfl | ⟨i, rfl⟩ : t = q ∨ t = q + 1 ∨ ∃ i, t = q + 1 + 1 + i := by
    rcases Nat.lt_or_ge (q + 1) t with hlt | hge
    · exact .inr (.inr ⟨t - (q + 2), by omega⟩)
    · omega
  · exact hb
  · have hnext : (S.reader (q + 1)).job = none := by
      rw [job_succ, hreq, hrest]
      rfl
    exact (burst_of_none hnext).1
  · have hj := job_of_request hr hq (i := i) (by omega)
    exact (wait_of_job hj (Nat.sub_pos_of_lt (by omega))).1

/-- A burst that is lost is the first one of its tile: the others find slot 1 unfinished. -/
theorem first_of_overflows (hr : S.Regular) (hk : S.KeptBefore t) (h : S.overflows t = true) :
    ∃ q a, S.request q = some a ∧ t = q + 1 + S.chip.latency := by
  obtain ⟨hb, hfull, -⟩ := overflows_iff.1 h
  cases hj : (S.reader t).job with
  | none =>
    rw [(burst_of_none hj).1] at hb
    cases hb
  | some j =>
    obtain ⟨q, i, a, hq, hi, rfl, rfl⟩ := request_of_job hr hj
    have hwait : ¬ 0 < (S.jobAfter a i).wait := by
      intro hw
      rw [(wait_of_job hj hw).1] at hb
      cases hb
    have harrived := (streaming hr hk).arrived
    rw [arrived, hfull, if_pos rfl, hj] at harrived
    have hnext : i - S.chip.latency = 0 := by
      have hburst := hr.burst
      simpa [jobAfter, hburst.ne'] using harrived
    have hlatency : S.chip.latency - i = 0 := Nat.eq_zero_of_not_pos hwait
    exact ⟨q, a, hq, by omega⟩

/-- **Where a burst is lost**, slot 1 could not hand on its tile, and no burst has come in the two cycles before. -/
theorem of_overflows (hr : S.Regular) (hs : S.Rested) (hk : S.KeptBefore t) (h : S.overflows t = true) :
    ∃ q a, S.request (q + 1) = some a ∧ t = q + 2 + S.chip.latency ∧ S.Stuck t ∧
      ∀ u, q ≤ u → u < t → S.burst u = none := by
  obtain ⟨q, a, hq, rfl⟩ := first_of_overflows hr hk h
  cases q with
  | zero =>
    rw [hs.zero] at hq
    cases hq
  | succ q =>
    obtain ⟨-, hfull, hsecond⟩ := overflows_iff.1 h
    exact ⟨q, a, hq, rfl, ⟨hfull, hsecond⟩, fun u hu hut => burst_eq_none hr hs hq hu hut⟩

end Systolic.Supply
