import Mathlib.Data.Nat.Count
import Systolic.Pipeline.Mesh

/-!
# Handing tiles over to the array

A run of the array: `lanes` on its left edge and `front` at the front of the queue, from power-on on. The array takes a
tile in a window of `N` cycles (`window_back`, `window_forward`) and stages it until a switch brings it in. With `taken`
tiles and `entered` switches before a cycle, and as long as no hazard has shown, a tile is staged exactly when one more
tile has been taken than switches have entered (`paced`). No switch enters during a window, so the tiles are at most one
ahead of the switches of `N` cycles ago (`taken_le_entered_sub`).
-/

namespace Systolic.Mesh

/-! ## One cycle of the window -/

section Window

variable {mesh : Mesh} {size k : Nat}

/-- The front tile is dropped in the last step of a window. -/
theorem advance_iff : mesh.advance size = true ↔ ∃ k, mesh.programming = some k ∧ k + 1 = size := by
  rw [advance]
  cases mesh.programming <;> simp

theorem advance_of_none (h : mesh.programming = none) : mesh.advance size = false := by
  rw [advance, h]
  rfl

theorem advance_of_ne (h : mesh.programming = some k) (hk : k + 1 ≠ size) : mesh.advance size = false := by
  simp [advance, h, hk]

variable (lanes : List Lane) (front? : Option Tile)

/-- The last step of a window stages the tile. -/
theorem nextProgramming_of_last (h : mesh.programming = some k) (hk : k + 1 = size) :
    mesh.nextProgramming size lanes front? = (none, true) := by
  simp only [nextProgramming, h, if_pos hk]

/-- A window that is not over goes on. -/
theorem nextProgramming_of_ne (h : mesh.programming = some k) (hk : k + 1 ≠ size) :
    mesh.nextProgramming size lanes front? = (some (k + 1), mesh.loaded && !switching lanes) := by
  simp only [nextProgramming, h, if_neg hk]

end Window

/-! ## Runs -/

/-- What the array sees of its surroundings in every cycle. -/
structure Run where
  chip : Chip
  lanes : Nat → List Lane
  front : Nat → Option Tile

namespace Run

variable (R : Run)

/-- The array in cycle `t`. -/
def mesh : Nat → Mesh
  | 0 => idle R.chip.size
  | t + 1 => ((mesh t).step R.chip (R.lanes t) (R.front t)).1

/-- What leaves the array in cycle `t`. -/
def output (t : Nat) : Output := ((R.mesh t).step R.chip (R.lanes t) (R.front t)).2

/-- The front tile has been broadcast whole with cycle `t`. -/
def takes (t : Nat) : Bool := (R.output t).advance

/-- A switch enters in cycle `t`. -/
def enters (t : Nat) : Bool := switching (R.lanes t)

/-- Tiles taken before cycle `t`. -/
def taken (t : Nat) : Nat := Nat.count (fun u => R.takes u = true) t

/-- Switches that entered before cycle `t`. -/
def entered (t : Nat) : Nat := Nat.count (fun u => R.enters u = true) t

/-- No hazard has shown before cycle `t`. -/
def SafeBefore (t : Nat) : Prop := ∀ u < t, (R.output u).hazard = none

/-- A tile at the front stays there until it has been taken. -/
def Holds : Prop := ∀ t, (R.front t).isSome = true → R.takes t = false → (R.front (t + 1)).isSome = true

variable {R}

theorem SafeBefore.mono {s t : Nat} (h : R.SafeBefore t) (hst : s ≤ t) : R.SafeBefore s := fun u hu => h u (by omega)

@[simp] theorem taken_zero : R.taken 0 = 0 := Nat.count_zero _

@[simp] theorem entered_zero : R.entered 0 = 0 := Nat.count_zero _

theorem taken_succ (t : Nat) : R.taken (t + 1) = R.taken t + if R.takes t = true then 1 else 0 := Nat.count_succ _ _

theorem entered_succ (t : Nat) : R.entered (t + 1) = R.entered t + if R.enters t = true then 1 else 0 :=
  Nat.count_succ _ _

theorem taken_mono {s t : Nat} (h : s ≤ t) : R.taken s ≤ R.taken t := Nat.count_monotone _ h

theorem entered_mono {s t : Nat} (h : s ≤ t) : R.entered s ≤ R.entered t := Nat.count_monotone _ h

/-! ## One step of the programming window -/

theorem takes_iff {t : Nat} : R.takes t = true ↔ ∃ k, (R.mesh t).programming = some k ∧ k + 1 = R.chip.size :=
  advance_iff

theorem programming_loaded_succ (t : Nat) :
    ((R.mesh (t + 1)).programming, (R.mesh (t + 1)).loaded) =
      (R.mesh t).nextProgramming R.chip.size (R.lanes t) (R.front t) := rfl

/-- A window that is not over goes on. -/
theorem programming_of_lt {t k : Nat} (h : (R.mesh t).programming = some k) (hk : k + 1 ≠ R.chip.size) :
    (R.mesh (t + 1)).programming = some (k + 1) ∧ (R.mesh (t + 1)).loaded = ((R.mesh t).loaded && !R.enters t) := by
  have hp := R.programming_loaded_succ t
  rw [nextProgramming_of_ne _ _ h hk, Prod.mk.injEq] at hp
  exact hp

/-- The last step of a window stages the tile. -/
theorem programming_of_last {t k : Nat} (h : (R.mesh t).programming = some k) (hk : k + 1 = R.chip.size) :
    (R.mesh (t + 1)).programming = none ∧ (R.mesh (t + 1)).loaded = true := by
  have hp := R.programming_loaded_succ t
  rw [nextProgramming_of_last _ _ h hk, Prod.mk.injEq] at hp
  exact hp

/-- A staged tile stays while no switch enters. -/
theorem programming_of_stays {t : Nat} (h : (R.mesh t).programming = none) (hl : (R.mesh t).loaded = true)
    (he : R.enters t = false) : (R.mesh (t + 1)).programming = none ∧ (R.mesh (t + 1)).loaded = true := by
  have hp := R.programming_loaded_succ t
  simp only [enters] at he
  simpa [nextProgramming, h, hl, he, Prod.mk.injEq] using hp

/-- When nothing stays staged, a window opens if a tile is at the front. -/
theorem programming_of_leaves {t : Nat} (h : (R.mesh t).programming = none)
    (hl : (R.mesh t).loaded = false ∨ R.enters t = true) :
    (R.mesh (t + 1)).programming = (if (R.front t).isSome = true then some 0 else none) ∧
      (R.mesh (t + 1)).loaded = false := by
  have hp := R.programming_loaded_succ t
  have hs : ((R.mesh t).loaded && !switching (R.lanes t)) = false := by
    rcases hl with hl | hl
    · simp [hl]
    · simp [show switching (R.lanes t) = true from hl]
  simp only [nextProgramming, h, hs] at hp
  cases hf : (R.front t).isSome <;> simpa [hf] using hp

/-- A step of a window other than the first follows the one before it. -/
theorem programming_pred {t k : Nat} (h : (R.mesh (t + 1)).programming = some (k + 1)) :
    (R.mesh t).programming = some k := by
  cases hp : (R.mesh t).programming with
  | none =>
    by_cases hs : (R.mesh t).loaded = true ∧ R.enters t = false
    · rw [(programming_of_stays hp hs.1 hs.2).1] at h
      cases h
    · have hl : (R.mesh t).loaded = false ∨ R.enters t = true := by
        cases hl : (R.mesh t).loaded <;> cases he : R.enters t <;> simp_all
      rw [(programming_of_leaves hp hl).1] at h
      split at h <;> simp at h
  | some j =>
    by_cases hj : j + 1 = R.chip.size
    · rw [(programming_of_last hp hj).1] at h
      cases h
    · rw [(programming_of_lt hp hj).1] at h
      simpa using h

/-- The steps of a window that have gone by. -/
theorem window_back {t k : Nat} (h : (R.mesh t).programming = some k) :
    ∀ i ≤ k, i < t ∧ (R.mesh (t - i)).programming = some (k - i) := by
  intro i
  induction i with
  | zero =>
    intro _
    refine ⟨Nat.pos_of_ne_zero ?_, by simpa using h⟩
    rintro rfl
    cases h
  | succ i ih =>
    intro hi
    obtain ⟨hit, hp⟩ := ih (by omega)
    obtain ⟨u, hu⟩ : ∃ u, t - i = u + 1 := ⟨t - i - 1, by omega⟩
    rw [hu, show k - i = (k - (i + 1)) + 1 by omega] at hp
    have hp' := programming_pred hp
    rw [show t - (i + 1) = u by omega]
    refine ⟨?_, hp'⟩
    have hu0 : u ≠ 0 := by
      rintro rfl
      cases hp'
    omega

/-- The steps of a window that are to come. -/
theorem window_forward {t k : Nat} (h : (R.mesh t).programming = some k) :
    ∀ i, k + i < R.chip.size → (R.mesh (t + i)).programming = some (k + i) := by
  intro i
  induction i with
  | zero => intro _; exact h
  | succ i ih =>
    intro hi
    exact (programming_of_lt (ih (by omega)) (by omega)).1

/-- While a tile is programmed it stands at the front, whatever hazards show. -/
theorem front_of_programming (hf : R.Holds) {t k : Nat} (h : (R.mesh t).programming = some k) :
    (R.front t).isSome = true := by
  induction t generalizing k with
  | zero => cases h
  | succ t ih =>
    cases hp : (R.mesh t).programming with
    | some j =>
      by_cases hj : j + 1 = R.chip.size
      · rw [(programming_of_last hp hj).1] at h
        cases h
      · refine hf t (ih hp) ?_
        by_contra hc
        obtain ⟨i, hi, hi'⟩ := takes_iff.1 (by simpa using hc)
        rw [hp] at hi
        cases hi
        exact hj hi'
    | none =>
      have hnt : R.takes t = false := by
        by_contra hc
        obtain ⟨i, hi, -⟩ := takes_iff.1 (by simpa using hc)
        rw [hp] at hi
        cases hi
      refine hf t ?_ hnt
      by_cases hs : (R.mesh t).loaded = true ∧ R.enters t = false
      · rw [(programming_of_stays hp hs.1 hs.2).1] at h
        cases h
      · have hl : (R.mesh t).loaded = false ∨ R.enters t = true := by
          cases hl : (R.mesh t).loaded <;> cases he : R.enters t <;> simp_all
        rw [(programming_of_leaves hp hl).1] at h
        by_contra hno
        rw [if_neg hno] at h
        cases h

/-! ## What stands between two switches -/

/-- How the tiles taken and the switches entered stand in cycle `t`. -/
structure Paced (R : Run) (t : Nat) : Prop where
  staged : (R.mesh t).programming = none → (R.mesh t).loaded = true → R.taken t = R.entered t + 1
  empty : (R.mesh t).programming = none → (R.mesh t).loaded = false → R.taken t = R.entered t
  running : ∀ k, (R.mesh t).programming = some k →
    k < R.chip.size ∧ (R.mesh t).loaded = false ∧ (R.front t).isSome = true ∧ R.taken t = R.entered (t - k) ∧
      R.entered t = R.entered (t - k)

/-- Without a hazard, a switch finds a staged tile and no window. -/
theorem of_enters {t : Nat} (h : (R.output t).hazard = none) (he : R.enters t = true) :
    (R.mesh t).programming = none ∧ (R.mesh t).loaded = true := by
  have h' : (R.mesh t).hazard? (R.lanes t) = none := h
  unfold enters at he
  simp only [hazard?, he, if_true] at h'
  split at h'
  · cases h'
  · split at h'
    · simp_all
    · cases h'

/-- Only the last step of a window takes a tile. -/
theorem takes_of_ne {t : Nat} (h : ∀ k, (R.mesh t).programming = some k → k + 1 ≠ R.chip.size) : R.takes t = false := by
  by_contra hne
  obtain ⟨k, hk, hlast⟩ := takes_iff.1 (Bool.eq_true_of_not_eq_false hne)
  exact h k hk hlast

/-- A cycle of a window keeps the pace. -/
theorem Paced.succ_running (hf : R.Holds) {t k : Nat} (h : R.Paced t) (hz : (R.output t).hazard = none)
    (hp : (R.mesh t).programming = some k) : R.Paced (t + 1) := by
  obtain ⟨hk, hl, hfr, ht, he⟩ := h.running k hp
  have hnone : R.enters t = false := by
    by_contra hne
    have hidle := (of_enters hz (Bool.eq_true_of_not_eq_false hne)).1
    rw [hp] at hidle
    cases hidle
  have hent : R.entered (t + 1) = R.entered t := by rw [entered_succ, hnone]; simp
  by_cases hlast : k + 1 = R.chip.size
  · obtain ⟨hp', hl'⟩ := programming_of_last hp hlast
    have htk : R.taken (t + 1) = R.taken t + 1 := by
      rw [taken_succ, if_pos (takes_iff.2 ⟨k, hp, hlast⟩)]
    exact ⟨fun _ _ => by omega, fun _ hl => by simp [hl'] at hl, fun _ hk => by simp [hp'] at hk⟩
  · obtain ⟨hp', hl'⟩ := programming_of_lt hp hlast
    have hnt : R.takes t = false := takes_of_ne fun j hj => by
      rw [hp] at hj
      cases hj
      exact hlast
    have htk : R.taken (t + 1) = R.taken t := by rw [taken_succ, hnt]; simp
    refine ⟨fun hn => by simp [hp'] at hn, fun hn => by simp [hp'] at hn, fun j hj => ?_⟩
    obtain rfl : k + 1 = j := by simpa [hp'] using hj
    refine ⟨by omega, by simp [hl', hl], hf t hfr hnt, ?_, ?_⟩ <;> rw [Nat.add_sub_add_right] <;> omega

/-- A cycle without a window keeps the pace. -/
theorem Paced.succ_none (hN : 0 < R.chip.size) (hf : R.Holds) {t : Nat} (h : R.Paced t)
    (hz : (R.output t).hazard = none) (hp : (R.mesh t).programming = none) : R.Paced (t + 1) := by
  have hnt : R.takes t = false := takes_of_ne fun k hk => by rw [hp] at hk; cases hk
  have htk : R.taken (t + 1) = R.taken t := by rw [taken_succ, hnt]; simp
  by_cases hs : (R.mesh t).loaded = true ∧ R.enters t = false
  · obtain ⟨hp', hl'⟩ := programming_of_stays hp hs.1 hs.2
    have hent : R.entered (t + 1) = R.entered t := by rw [entered_succ, hs.2]; simp
    have := h.staged hp hs.1
    exact ⟨fun _ _ => by omega, fun _ hl => by simp [hl'] at hl, fun _ hk => by simp [hp'] at hk⟩
  · have hl : (R.mesh t).loaded = false ∨ R.enters t = true := by
      cases hl : (R.mesh t).loaded <;> cases he : R.enters t <;> simp_all
    obtain ⟨hp', hl'⟩ := programming_of_leaves hp hl
    -- a switch that enters here found a staged tile, which is now in use
    have heq : R.taken (t + 1) = R.entered (t + 1) := by
      rw [htk, entered_succ]
      cases he : R.enters t with
      | true =>
        have := h.staged hp (of_enters hz he).2
        simpa using this
      | false =>
        have hl0 : (R.mesh t).loaded = false := by simpa [he] using hl
        simpa using h.empty hp hl0
    refine ⟨fun _ hl => by simp [hl'] at hl, fun _ _ => heq, fun k hk => ?_⟩
    rw [hp'] at hk
    split at hk
    · rename_i hfr
      obtain rfl : 0 = k := by simpa using hk
      exact ⟨hN, hl', hf t hfr hnt, by simpa using heq, rfl⟩
    · cases hk

/-- **One cycle** keeps the pace if it shows no hazard. -/
theorem Paced.succ (hN : 0 < R.chip.size) (hf : R.Holds) {t : Nat} (h : R.Paced t)
    (hz : (R.output t).hazard = none) : R.Paced (t + 1) := by
  cases hp : (R.mesh t).programming with
  | some k => exact h.succ_running hf hz hp
  | none => exact h.succ_none hN hf hz hp

theorem paced (hN : 0 < R.chip.size) (hf : R.Holds) {t : Nat} (hz : R.SafeBefore t) : R.Paced t := by
  induction t with
  | zero =>
    refine ⟨fun _ hl => ?_, fun _ _ => by simp, fun k hk => ?_⟩
    · cases hl
    · cases hk
  | succ t ih => exact (ih (hz.mono (Nat.le_succ t))).succ hN hf (hz t (Nat.lt_succ_self t))

section Pace

variable (hN : 0 < R.chip.size) (hf : R.Holds) {t : Nat} (hz : R.SafeBefore t)
include hN hf hz

theorem entered_le_taken : R.entered t ≤ R.taken t := by
  have h := paced hN hf hz
  cases hp : (R.mesh t).programming with
  | none =>
    cases hl : (R.mesh t).loaded with
    | true => have := h.staged hp hl; omega
    | false => have := h.empty hp hl; omega
  | some k =>
    obtain ⟨-, -, -, ht, he⟩ := h.running k hp
    omega

/-- A switch enters with a tile that had been taken before. -/
theorem entered_succ_le_taken (hz' : (R.output t).hazard = none) : R.entered (t + 1) ≤ R.taken t := by
  rw [entered_succ]
  split
  · rename_i he
    obtain ⟨hp, hl⟩ := of_enters hz' he
    exact ((paced hN hf hz).staged hp hl).ge
  · exact entered_le_taken hN hf hz

/-- The tiles are at most one ahead of the switches of `N` cycles ago. -/
theorem taken_le_entered_sub : R.taken t ≤ R.entered (t - R.chip.size) + 1 := by
  induction t with
  | zero => simp
  | succ t ih =>
    have hz' := hz.mono (Nat.le_succ t)
    rw [taken_succ]
    split
    · rename_i hk
      obtain ⟨k, hp, hk⟩ := takes_iff.1 hk
      obtain ⟨-, -, -, ht, -⟩ := (paced hN hf hz').running k hp
      rw [show t + 1 - R.chip.size = t - k by omega]
      omega
    · have := ih hz'
      have := R.entered_mono (show t - R.chip.size ≤ t + 1 - R.chip.size by omega)
      omega

/-- A tile at the front is taken within `N + 1` cycles once the switches have come as far as the one before it. -/
theorem le_taken {n : Nat} (hn : n ≤ R.taken t + (R.front t).isSome.toNat) (he : n ≤ R.entered (t + 1) + 1) :
    n ≤ R.taken (t + R.chip.size + 1) := by
  have h := paced hN hf hz
  -- a window that stands at step `k` in cycle `u` ends in cycle `u + N - 1 - k`
  have hends : ∀ u k, u ≤ t + 1 → k < R.chip.size → (R.mesh u).programming = some k →
      R.taken u + 1 ≤ R.taken (t + R.chip.size + 1) := by
    intro u k hu hk hp
    have hlast := window_forward hp (R.chip.size - 1 - k) (by omega)
    have htakes : R.takes (u + (R.chip.size - 1 - k)) = true := takes_iff.2 ⟨_, hlast, by omega⟩
    have hs := R.taken_succ (u + (R.chip.size - 1 - k))
    rw [if_pos htakes] at hs
    have := R.taken_mono (show u ≤ u + (R.chip.size - 1 - k) by omega)
    have := R.taken_mono (show u + (R.chip.size - 1 - k) + 1 ≤ t + R.chip.size + 1 by omega)
    omega
  have hbit := Bool.toNat_le (R.front t).isSome
  have hmono := R.taken_mono (show t ≤ t + R.chip.size + 1 by omega)
  cases hp : (R.mesh t).programming with
  | some k =>
    have := hends t k (by omega) (h.running k hp).1 hp
    omega
  | none =>
    by_cases hs : (R.mesh t).loaded = true ∧ R.enters t = false
    · have hst := h.staged hp hs.1
      rw [entered_succ, if_neg (by simp [hs.2])] at he
      omega
    · have hl : (R.mesh t).loaded = false ∨ R.enters t = true := by
        cases hl : (R.mesh t).loaded <;> cases he : R.enters t <;> simp_all
      cases hfr : (R.front t).isSome with
      | false =>
        rw [hfr, Bool.toNat_false] at hn
        omega
      | true =>
        have hopen := (programming_of_leaves hp hl).1
        rw [if_pos hfr] at hopen
        have := hends (t + 1) 0 (Nat.le_refl _) hN hopen
        have := R.taken_mono (show t ≤ t + 1 by omega)
        omega

/-- A switch that finds a tile more taken than switches entered shows no hazard. -/
theorem hazard_eq_none (h : R.enters t = true → R.entered t < R.taken t) : (R.output t).hazard = none := by
  have hout : (R.output t).hazard = (R.mesh t).hazard? (R.lanes t) := rfl
  have hpace := paced hN hf hz
  rw [hout, hazard?]
  cases he : switching (R.lanes t) with
  | false => rfl
  | true =>
    have hlt := h he
    cases hp : (R.mesh t).programming with
    | some k =>
      obtain ⟨-, -, -, htaken, hentered⟩ := hpace.running k hp
      omega
    | none =>
      cases hl : (R.mesh t).loaded with
      | true => rfl
      | false =>
        have := hpace.empty hp hl
        omega

end Pace

/-- The steps of a window show the same count of tiles. -/
theorem taken_window {t k : Nat} (h : (R.mesh t).programming = some k) (hk : k < R.chip.size) :
    ∀ i ≤ k, R.taken (t - i) = R.taken t := by
  intro i
  induction i with
  | zero => intro _; rfl
  | succ i ih =>
    intro hi
    obtain ⟨hit, hp⟩ := window_back h (i + 1) hi
    have hnt : ¬ R.takes (t - (i + 1)) = true := by
      intro hc
      obtain ⟨j, hj, hj'⟩ := takes_iff.1 hc
      rw [hp] at hj
      cases hj
      omega
    have hs := R.taken_succ (t - (i + 1))
    rw [if_neg hnt, show t - (i + 1) + 1 = t - i by omega, ih (by omega)] at hs
    omega

end Run

end Systolic.Mesh
