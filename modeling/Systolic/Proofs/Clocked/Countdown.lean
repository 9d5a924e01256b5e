import Mathlib.Algebra.Group.Nat.Defs
import Mathlib.Tactic.ByContra

/-!
# Counters and jobs

`Countdown set count` says that the 64-bit counter `count` is set to a span at some cycles and runs down by one in every
other, and that it is set only right after it has stood at zero. So a span that fits the counter runs down to zero
undisturbed (`Countdown.count_eq`), and the next setting is more than this span away (`Countdown.spaced`); a longer one
wraps around and may be over at once. A job that is given to a unit goes on from cycle to cycle until another one replaces
it (`running_job`), and what runs has been given (`exists_given`).
-/

namespace Systolic

/-- A 64-bit counter that is set to the spans of `set`, each time after it has stood at zero. -/
structure Countdown (set : Nat → Option Nat) (count : Nat → Nat) : Prop where
  zero : set 0 = none
  succ : ∀ t, count (t + 1) = ((set (t + 1)).map (· % 2 ^ 64)).getD (count t - 1)
  ready : ∀ t, (set (t + 1)).isSome = true → count t = 0

namespace Countdown

variable {set : Nat → Option Nat} {count : Nat → Nat} (h : Countdown set count) {d n : Nat} (hd : set d = some n)
  (hn : n < 2 ^ 64)
include h hd hn

/-- A span that fits runs down undisturbed. -/
theorem count_eq : ∀ i ≤ n, count (d + i) = n - i := by
  intro i
  induction i with
  | zero =>
    intro _
    cases d with
    | zero =>
      rw [h.zero] at hd
      cases hd
    | succ d =>
      rw [Nat.add_zero, h.succ, hd, Option.map_some, Option.getD_some, Nat.mod_eq_of_lt hn]
      rfl
  | succ i ih =>
    intro hi
    have hnone : set (d + i + 1) = none := by
      by_contra hne
      have := h.ready (d + i) (Option.isSome_iff_ne_none.2 hne)
      rw [ih (by omega)] at this
      omega
    rw [← Nat.add_assoc, h.succ, hnone, Option.map_none, Option.getD_none, ih (by omega)]
    omega

/-- Nothing is set while a span that fits runs down. -/
theorem set_eq_none {i : Nat} (h0 : 0 < i) (hi : i ≤ n) : set (d + i) = none := by
  obtain ⟨i, rfl⟩ : ∃ k, i = k + 1 := ⟨i - 1, by omega⟩
  by_contra hne
  have := h.ready (d + i) (Option.isSome_iff_ne_none.2 hne)
  rw [h.count_eq hd hn i (by omega)] at this
  omega

theorem spaced {e k : Nat} (he : set e = some k) (hde : d < e) : d + n < e := by
  by_contra hle
  have := h.set_eq_none hd hn (i := e - d) (by omega) (by omega)
  rw [show d + (e - d) = e by omega, he] at this
  cases this

/-- A counter at zero has run down whatever was set before. -/
theorem le_of_count_eq_zero {t : Nat} (hdt : d ≤ t) (ht : count t = 0) : d + n ≤ t := by
  by_contra hlt
  have hc := h.count_eq hd hn (t - d) (by omega)
  rw [show d + (t - d) = t by omega, ht] at hc
  omega

end Countdown

/-- A job that is given in cycle `d` has come to `after i` in cycle `d + i`, unless another one has replaced it. -/
theorem running_job {J : Type} {next? : J → Option J} {given job : Nat → Option J}
    (hsucc : ∀ t, job (t + 1) = ((given t).or (job t)).bind next?) {d n : Nat} {after : Nat → J}
    (hd : given d = some (after 0)) (hquiet : ∀ i, 0 < i → i ≤ n → given (d + i) = none)
    (hnext : ∀ i < n, next? (after i) = some (after (i + 1))) :
    ∀ i ≤ n, (given (d + i)).or (job (d + i)) = some (after i) := by
  intro i
  induction i with
  | zero =>
    intro _
    rw [Nat.add_zero, hd]
    rfl
  | succ i ih =>
    intro hi
    rw [hquiet (i + 1) (by omega) hi, Option.none_or, ← Nat.add_assoc, hsucc, ih (by omega)]
    exact hnext i (by omega)

/-- Conversely, what runs was given: `run d a k` is what `a`, given in cycle `d`, has come to in cycle `d + k`. -/
theorem exists_given {A J : Type} (given : Nat → Option A) (current : Nat → Option J) (run : Nat → A → Nat → Option J)
    (hzero : given 0 = none → current 0 = none) (hgiven : ∀ t a, given t = some a → current t = run t a 0)
    (hsucc : ∀ t j, given (t + 1) = none → current (t + 1) = some j →
      ∃ i, current t = some i ∧ ∀ d a k, t = d + k → run d a k = some i → run d a (k + 1) = some j)
    {t : Nat} {j : J} (h : current t = some j) : ∃ d a k, given d = some a ∧ t = d + k ∧ run d a k = some j := by
  induction t generalizing j with
  | zero =>
    cases hg : given 0 with
    | none =>
      rw [hzero hg] at h
      cases h
    | some a => exact ⟨0, a, 0, hg, rfl, (hgiven 0 a hg).symm.trans h⟩
  | succ t ih =>
    cases hg : given (t + 1) with
    | some a => exact ⟨t + 1, a, 0, hg, rfl, (hgiven _ a hg).symm.trans h⟩
    | none =>
      obtain ⟨i, hi, hnext⟩ := hsucc t j hg h
      obtain ⟨d, a, k, hd, ht, hrun⟩ := ih hi
      exact ⟨d, a, k + 1, hd, congrArg (· + 1) ht, hnext d a k ht hrun⟩

end Systolic
