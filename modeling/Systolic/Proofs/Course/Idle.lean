import Systolic.Proofs.Course.Activation
import Systolic.Proofs.Course.Commit

/-!
# Idle units

Each unit that has nothing to do goes on with nothing to do as long as it gets no command (`act_idle`, `rows_idle`,
`link_idle`), and the memories that it writes stay as they are (`pad_eq`, `host_eq`). The accumulators do once the rows
that were pushed have had the time to reach them (`acc_of_drained`).
-/

namespace Systolic.Course

variable (C : Course)

/-- Every row that was pushed before cycle `t` has reached the accumulators. -/
def Drained (t : Nat) : Prop := ∀ u < t, (C.row? u).isSome = true → u + 2 * C.chip.size + 1 ≤ t

/-- No unit has anything to do, apart from reading weights. -/
structure UnitsIdle (t : Nat) : Prop where
  act : C.actJob t = none
  rows : C.rowJob t = none
  link : C.LinkIdle t
  drained : C.Drained t

variable {C}

/-- What is kept by a step is kept by several, and what follows in every step holds in all of them. -/
theorem kept {P A Q : Nat → Prop} (step : ∀ t, P t → A t → P (t + 1) ∧ Q t) {t : Nat} (h : P t) {n : Nat}
    (hA : ∀ j < n, A (t + j)) : P (t + n) ∧ ∀ j < n, Q (t + j) := by
  induction n with
  | zero => exact ⟨h, fun j hj => absurd hj (Nat.not_lt_zero j)⟩
  | succ n ih =>
    obtain ⟨hP, hQ⟩ := ih fun j hj => hA j (by omega)
    obtain ⟨hnext, hq⟩ := step (t + n) hP (hA n (Nat.lt_succ_self n))
    refine ⟨hnext, fun j hj => ?_⟩
    rcases Nat.lt_or_eq_of_le (Nat.le_of_lt_succ hj) with hlt | rfl
    · exact hQ j hlt
    · exact hq

/-! ## The units -/

theorem act_idle {t n : Nat} (h : C.actJob t = none)
    (hi : ∀ j < n, ∀ a, C.issue (t + j) = some (.activate a) → a.length = 0) :
    C.actJob (t + n) = none ∧ ∀ j < n, C.act (t + j) = {} := by
  refine kept (P := fun u => C.actJob u = none) (A := fun u => ∀ a, C.issue u = some (.activate a) → a.length = 0)
    (Q := fun u => C.act u = {}) (fun u hu ha => ?_) h hi
  obtain ⟨hact, hjob⟩ := act_of_idle (actJob?_eq_none hu ha)
  exact ⟨hjob, hact⟩

theorem rows_idle {t n : Nat} (h : C.rowJob t = none) (hi : ∀ j < n, C.multiplication? (t + j) = none) :
    C.rowJob (t + n) = none ∧ ∀ j < n, C.row? (t + j) = none := by
  refine kept (P := fun u => C.rowJob u = none) (A := fun u => C.multiplication? u = none)
    (Q := fun u => C.row? u = none) (fun u hu hm => ?_) h hi
  rw [rowJob_succ, row?_eq, hu, hm]
  exact ⟨rfl, rfl⟩

/-- After its last row a multiplication pushes nothing, and neither does the source until the next one. -/
theorem rows_after {d n : Nat} {m : Multiplication} (h : C.issue d = some (.multiply m))
    (hfit : (Command.multiply m).SpanFits C.chip) (hn : m.length.toNat < n)
    (hno : ∀ j, 0 < j → j < n → C.multiplication? (d + j) = none) :
    C.rowJob (d + n) = none ∧ ∀ u, d + m.length.toNat ≤ u → u < d + n → C.row? u = none := by
  obtain ⟨hover, hjob⟩ := rows_over h hfit
  obtain ⟨hrows, hquiet⟩ := rows_idle hjob (n := n - (m.length.toNat + 1)) fun j hj => by
    rw [show d + m.length.toNat + 1 + j = d + (m.length.toNat + 1 + j) by omega]
    exact hno _ (by omega) (by omega)
  rw [show d + m.length.toNat + 1 + (n - (m.length.toNat + 1)) = d + n by omega] at hrows
  refine ⟨hrows, fun u hu hut => ?_⟩
  rcases Nat.lt_or_eq_of_le hu with hlt | rfl
  · have hrow := hquiet (u - (d + m.length.toNat + 1)) (by omega)
    rwa [Nat.add_sub_cancel' hlt] at hrow
  · exact hover

theorem link_idle {t n : Nat} (h : C.LinkIdle t)
    (hi : ∀ j < n, ∀ c, C.issue (t + j) = some c → HostLink.takes c = false) :
    C.LinkIdle (t + n) ∧ ∀ j < n, (C.transferred (t + j)).padWrite = none ∧ (C.transferred (t + j)).hostWrite = none :=
  kept (P := C.LinkIdle) (A := fun u => ∀ c, C.issue u = some c → HostLink.takes c = false)
    (Q := fun u => (C.transferred u).padWrite = none ∧ (C.transferred u).hostWrite = none)
    (fun _ hu hc => hu.step hc) h hi

/-! ## The memories -/

section Memories

variable (hclosed : C.Closed) {t n : Nat}
include hclosed

theorem pad_eq (hact : ∀ j < n, (C.act (t + j)).write = none)
    (hlink : ∀ j < n, (C.transferred (t + j)).padWrite = none) :
    (C.memories (t + n)).pad = (C.memories t).pad := by
  induction n with
  | zero => rfl
  | succ n ih =>
    rw [← Nat.add_assoc, pad_succ hclosed, hact n (Nat.lt_succ_self n), hlink n (Nat.lt_succ_self n)]
    exact ih (fun j hj => hact j (by omega)) fun j hj => hlink j (by omega)

theorem host_eq (hlink : ∀ j < n, (C.transferred (t + j)).hostWrite = none) :
    (C.memories (t + n)).host = (C.memories t).host := by
  induction n with
  | zero => rfl
  | succ n ih =>
    rw [← Nat.add_assoc, host_succ hclosed, hlink n (Nat.lt_succ_self n)]
    exact ih fun j hj => hlink j (by omega)

end Memories

/-- A column at which no row arrives keeps its elements. -/
theorem elem_acc_of_none {c t : Nat} (h : C.arriving c t = none) (k : Nat) :
    (C.memories (t + 1)).acc.elem c k = (C.memories t).acc.elem c k := by
  rw [acc_succ]
  refine AccStore.elem_apply_of_ne (fun w hw hcol => ?_) k
  obtain ⟨d, s, ctl, -, hd, rfl⟩ := (ControlChain.mem_writes _ _ _ _ _).1 hw
  obtain rfl : d = c := hcol
  have harrive : C.arriving d t = some ctl := hd
  rw [h] at harrive
  cases harrive

/-- No row arrives where none was pushed in time. -/
theorem arriving_eq_none {c s : Nat} (hc : c < C.chip.size) (h : ∀ u, u + C.chip.size + 1 + c = s → C.row? u = none) :
    C.arriving c s = none := by
  rw [arriving_eq hc]
  by_cases hs : C.chip.size + 1 + c ≤ s
  · rw [delayed_of_le hs, h _ (by omega)]
    rfl
  · exact delayed_of_lt (by omega) _

/-- Two cycles with the same elements have the same accumulators. -/
theorem acc_ext {acc : AccStore} {t : Nat} (hf : acc.Fits C.chip.size) (hd : acc.depth = (C.memories t).acc.depth)
    (h : ∀ c < C.chip.size, ∀ k, (C.memories t).acc.elem c k = acc.elem c k) : (C.memories t).acc = acc :=
  (fits_free t).acc.ext hf hd.symm h

/-- Once every row has reached them, the accumulators stay as they are until the next one is pushed. -/
theorem acc_of_drained {t n : Nat} (hd : C.Drained t) (hrow : ∀ j < n, C.row? (t + j) = none) :
    (C.memories (t + n)).acc = (C.memories t).acc := by
  induction n with
  | zero => rfl
  | succ n ih =>
    rw [← Nat.add_assoc]
    refine Eq.trans ?_ (ih fun j hj => hrow j (by omega))
    refine acc_ext (fits_free (t + n)).acc (by rw [depth_acc, depth_acc]) fun c hc k => ?_
    refine elem_acc_of_none (arriving_eq_none hc fun u hu => ?_) k
    rcases Nat.lt_or_ge u t with hlt | hge
    · by_contra hne
      have := hd u hlt (Option.isSome_iff_ne_none.2 hne)
      omega
    · have hquiet := hrow (u - t) (by omega)
      rwa [Nat.add_sub_cancel' hge] at hquiet

theorem Drained.mono {t n : Nat} (hd : C.Drained t) (hrow : ∀ j < n, C.row? (t + j) = none) : C.Drained (t + n) := by
  intro u hu hs
  rcases Nat.lt_or_ge u t with hlt | hge
  · have := hd u hlt hs
    omega
  · have hquiet := hrow (u - t) (by omega)
    rw [Nat.add_sub_cancel' hge] at hquiet
    rw [hquiet] at hs
    cases hs

/-- Two crossings of the array after the last row, every row has reached the accumulators. -/
theorem drained_of_rows {s t : Nat} (hst : s + 2 * C.chip.size ≤ t)
    (hrow : ∀ u, s ≤ u → u < t → C.row? u = none) : C.Drained t := by
  intro u hu hs
  rcases Nat.lt_or_ge u s with hlt | hge
  · omega
  · rw [hrow u hge hu] at hs
    cases hs

end Systolic.Course
