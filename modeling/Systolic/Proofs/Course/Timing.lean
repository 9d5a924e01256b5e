import Systolic.Proofs.Course.Tiles

/-!
# Tiles on time

The busy time of a weight read covers the access, the bursts, the way through the queue and the programming of the
array, also for a tile that has waited behind the one before it (`complete_of_read`, `le_taken_of_complete`). So a switch
that is dispatched after the busy time of the read of its tile finds the tile staged, and the array shows no hazard
(`hazard_of_onTime`).
-/

namespace Systolic.Course

variable (C : Course)

/-- A switch that is dispatched in cycle `d` comes after the busy time of the weight read of its tile. -/
def OnTime (d : Nat) : Prop := ∃ r a, (C.dispatched r).bind (·.tile?) = some a ∧ C.readCount r = C.switchCount d ∧
  r + C.chip.weightSpan + 1 ≤ d

variable {C}

/-! ## From the reader to the array -/

/-- A tile that has been taken had been at the front for `N` cycles. -/
theorem taken_le_atFront_sub {i : Nat} (hi : i ≤ C.chip.size) (t : Nat) :
    C.array.taken t ≤ C.supply.atFront (t - i) := by
  induction t with
  | zero => rw [Mesh.Run.taken_zero]; exact Nat.zero_le _
  | succ t ih =>
    have hmono := C.supply.atFront_mono (show t - i ≤ t + 1 - i by omega)
    rw [Mesh.Run.taken_succ]
    by_cases ht : C.array.takes t = true
    · rw [if_pos ht]
      cases i with
      | zero =>
        have h : C.supply.gone (t + 1) ≤ C.supply.atFront (t + 1) := Nat.le_add_right _ _
        rw [gone_eq, Mesh.Run.taken_succ, if_pos ht] at h
        exact h
      | succ i =>
        obtain ⟨k, hp, hk⟩ := Mesh.Run.takes_iff.1 ht
        have hk' : k + 1 = C.chip.size := hk
        obtain ⟨-, hp'⟩ := Mesh.Run.window_back hp i (by omega)
        have hfront := Mesh.Run.front_of_programming holds_array hp'
        have hcount := Mesh.Run.taken_window hp (by omega) i (by omega)
        rw [front_array] at hfront
        rw [Nat.add_sub_add_right, Supply.atFront, gone_eq, hfront, hcount]
        exact Nat.le_refl _
    · rw [if_neg ht]
      omega

section Fit

variable (hw : C.ReadsFit)
include hw

/-- A complete tile is at the front three cycles later, or in the cycle after the one before it has been taken. -/
theorem le_atFront_of_complete {n x y : Nat} (hx : n ≤ C.supply.complete x) (hy : n ≤ C.array.taken y + 1)
    (hq : C.QuietBefore (max x (y - 2))) : n ≤ C.supply.atFront (max (x + 3) (y + 1)) := by
  have hN := C.valid.size
  have hc : n ≤ C.supply.complete (max x (y - 2)) :=
    Nat.le_trans hx (Supply.complete_mono (regular_supply hw) (Nat.le_max_left _ _) hq.kept)
  have hback := fun i (hi : i ≤ C.chip.size) => taken_le_atFront_sub hi y
  have h2 := hback 2 (by omega)
  have hthird := C.supply.atFront_mono (Nat.le_max_right x (y - 2))
  have hle : C.supply.atFront (max x (y - 2)) ≤ C.supply.atThird (max x (y - 2)) := Nat.le_add_right _ _
  have hfront := C.supply.atFront_mono (show max x (y - 2) ≤ max x (y - 2) + 1 by omega)
  have hgone := C.supply.gone_mono (show y ≤ max x (y - 2) + 2 by omega)
  rw [gone_eq] at hgone
  have h := Supply.le_atFront hc (by omega) (by omega) (by omega)
  exact Nat.le_trans h (C.supply.atFront_mono (by omega))

/-- A complete tile is staged once the switch of the tile before it has entered, and `N + 1` cycles have gone by. -/
theorem le_taken_of_complete {n x y t : Nat} (hx : n ≤ C.supply.complete x) (hy : n ≤ C.array.entered y + 1)
    (hxt : x + C.chip.size + 4 ≤ t) (hyt : y + C.chip.size + 1 ≤ t) (hq : C.QuietBefore t) : n ≤ C.array.taken t := by
  -- the tile before it had been taken when its switch entered
  have hbefore : C.array.entered y ≤ C.array.taken (y - 1) := by
    cases y with
    | zero => exact Nat.zero_le _
    | succ u =>
      have hsafe := (hq.mono (by omega : u + 1 ≤ t)).safe
      exact Mesh.Run.entered_succ_le_taken size_pos holds_array (hsafe.mono (Nat.le_succ u)) (hsafe u (Nat.lt_succ_self u))
  obtain ⟨z, hz⟩ : ∃ z, z = max (x + 3) (y - 1 + 1) := ⟨_, rfl⟩
  have hfront := le_atFront_of_complete hw hx (by omega : n ≤ C.array.taken (y - 1) + 1) (hq.mono (by omega))
  rw [← hz, Supply.atFront, gone_eq, ← front_array] at hfront
  have hentered := C.array.entered_mono (show y ≤ z + 1 by omega)
  have htaken := Mesh.Run.le_taken size_pos holds_array (hq.mono (by omega : z ≤ t)).safe hfront (by omega)
  exact Nat.le_trans htaken (C.array.taken_mono (show z + C.chip.size + 1 ≤ t by omega))

/-- The tile behind a staged one comes to the front. -/
theorem le_atFront_of_entered {n x y t : Nat} (hx : n ≤ C.supply.complete x) (hy : n ≤ C.array.entered y + 2)
    (hxt : x + C.chip.size + 5 ≤ t) (hyt : y + C.chip.size + 3 ≤ t) (hq : C.QuietBefore t) :
    n ≤ C.supply.atFront t := by
  have htaken := le_taken_of_complete hw (n := n - 1) (y := y) (t := t - 1) (Nat.le_trans (Nat.sub_le n 1) hx) (by omega)
    (by omega) (by omega) (hq.mono (Nat.sub_le t 1))
  have hfront := le_atFront_of_complete hw (y := t - 1) hx (by omega) (hq.mono (by omega))
  rwa [show max (x + 3) (t - 1 + 1) = t by omega] at hfront

/-- The tile behind that one comes to the third slot. -/
theorem le_atThird_of_entered {n x y t : Nat} (hx : n ≤ C.supply.complete x) (hy : n ≤ C.array.entered y + 3)
    (hxt : x + C.chip.size + 6 ≤ t) (hyt : y + C.chip.size + 4 ≤ t) (hq : C.QuietBefore t) :
    n ≤ C.supply.atThird t := by
  obtain ⟨u, rfl⟩ : ∃ u, t = u + 2 := ⟨t - 2, by omega⟩
  have hfront := le_atFront_of_entered hw (n := n - 1) (y := y) (t := u + 1) (Nat.le_trans (Nat.sub_le n 1) hx)
    (by omega) (by omega) (by omega) (hq.mono (by omega))
  have hthird := C.supply.atFront_succ_le u
  have hcomplete := Nat.le_trans hx
    (Supply.complete_mono (regular_supply hw) (show x ≤ u by omega) (hq.mono (by omega)).kept)
  have hsecond := Supply.le_atSecond_succ hcomplete (by omega)
  exact Supply.le_atThird_succ hsecond (by omega)

/-- The tile of a weight read is complete once the access latency and its bursts are over. -/
theorem complete_of_read {r t : Nat} {a : UInt64} (hr : (C.dispatched r).bind (·.tile?) = some a)
    (ht : r + 2 + C.chip.latency + C.chip.burstsPerTile ≤ t) (hq : C.QuietBefore t) :
    C.readCount r + 1 ≤ C.supply.complete t := by
  have hreq : (C.supply.request (r + 1)).isSome = true := by rw [request_succ, hr]; rfl
  rw [← requested_succ]
  exact Supply.complete_of_request (regular_supply hw) hreq ht hq.kept

end Fit

/-! ## Switches -/

theorem opcode_of_switches {i : Instruction} (h : i.switches = true) : i.opcode = .multiply := by
  unfold Instruction.switches at h
  cases ho : i.opcode <;> first | rfl | (rw [ho] at h; cases h)

/-- A switch enters the array two cycles after the dispatch of its multiplication. -/
theorem dispatched_of_enters {t : Nat} (h : C.array.enters t = true) :
    ∃ d i, t = d + 2 ∧ C.dispatched d = some i ∧ i.switches = true := by
  rw [Mesh.Run.enters_rows fedBy_array size_pos] at h
  rcases t with _ | _ | d
  · cases h
  · rw [delayed_succ_succ, delayed_zero, switches_row?, multiplication?, issue_zero] at h
    cases h
  · rw [delayed_succ_succ, delayed_zero, switches_row?_succ] at h
    obtain ⟨i, hi, hs⟩ := (Option.any_eq_true _ _).1 h
    exact ⟨d, i, rfl, hi, hs⟩

/-- Two switches are dispatched more than the cooldown apart. -/
theorem switches_spaced (hsize : C.chip.size + 1 < 2 ^ 64) {d e : Nat} {i j : Instruction} (hd : C.dispatched d = some i)
    (hi : i.switches = true) (he : C.dispatched e = some j) (hj : j.switches = true) (hde : d < e) :
    d + C.chip.size + 1 < e := by
  have hset : ∀ {u : Nat} {k : Instruction}, C.dispatched u = some k → k.switches = true →
      (C.issue (u + 1)).bind (Sequencer.cooldownSet C.chip) = some (C.chip.size + 1) := by
    intro u k hu hk
    have hswitch : k.has Instruction.switchBit = true := by
      simp only [Instruction.switches, Bool.and_eq_true] at hk
      exact hk.2.1
    rw [issue_of_dispatched hu, command?_multiply (opcode_of_switches hk), Option.bind_some, Sequencer.cooldownSet,
      Command.multiplication?, Option.filter, if_pos hswitch]
    rfl
  have h := cooldown_countdown.spaced (hset hd hi) hsize (hset he hj) (by omega)
  omega

/-- The array shows no hazard in a cycle in which no switch enters late. -/
theorem hazard_of_onTime (hw : C.ReadsFit) {t : Nat} (hq : C.QuietBefore t)
    (h : ∀ d, d + 2 = t → (C.dispatched d).any (·.switches) = true → C.OnTime d) :
    (C.array.output t).hazard = none := by
  refine Mesh.Run.hazard_eq_none size_pos holds_array hq.safe fun hent => ?_
  obtain ⟨d, i, rfl, hd, hi⟩ := dispatched_of_enters hent
  obtain ⟨r, a, hr, hcount, htime⟩ := h d rfl (by rw [hd]; exact hi)
  have hW : C.chip.weightSpan = C.chip.burstsPerTile + C.chip.latency + C.chip.size + 4 := rfl
  have hfit := hw r a hr
  have hN := C.valid.size
  -- the switch of the tile before this one, if there is one
  obtain ⟨e, he, hee⟩ : ∃ e, C.switchCount d ≤ C.array.entered e ∧ e + C.chip.size + 1 ≤ d + 2 := by
    cases hn : C.switchCount d with
    | zero => exact ⟨0, Nat.zero_le _, by omega⟩
    | succ n =>
      obtain ⟨d', hd', hs, hscount⟩ := Supply.exists_of_lt_count (show n < C.switchCount d by omega)
      obtain ⟨j, hj, hjs⟩ := (Option.any_eq_true _ _).1 hs
      have hspaced := switches_spaced (by omega) hj hjs hd hi hd'
      refine ⟨d' + 1 + 2, ?_, by omega⟩
      rw [entered_eq, switchCount, Nat.count_succ, if_pos hs, hscount]
  have hcomplete := complete_of_read hw hr (Nat.le_refl _) (hq.mono (by omega))
  rw [hcount] at hcomplete
  have htaken := le_taken_of_complete hw hcomplete (Nat.succ_le_succ he) (by omega) hee hq
  rw [entered_eq]
  exact htaken

end Systolic.Course
