import Systolic.Proofs.Course.Room
import Systolic.Proofs.Course.Accumulate

/-!
# Tiles that wait

Seen from outside the queue, the tiles that have been read and not been switched to wait in a list: a weight read puts
one at its end (`waiting_of_read`), a switch takes the first one (`waiting_of_switch`). A course is disciplined when no
weight read finds more than four tiles waiting and no switch comes too early; then no hazard is raised
(`Disciplined.quiet`).
-/

namespace Systolic.Course

variable (C : Course)

/-- The tile of weight read `k`, counted from zero. -/
noncomputable def tile (k : Nat) : Tile := C.supply.tile (C.memories 0).weights k

/-- The tile in use once the switches before cycle `t` have taken effect. -/
noncomputable def current (t : Nat) : Tile := .inUse C.chip.size C.tile (C.switchCount t)

/-- The tiles that have been read before cycle `t`, and for which no switch has been dispatched. -/
noncomputable def waiting (t : Nat) : List Tile :=
  (List.range (C.readCount t - C.switchCount t)).map fun k => C.tile (C.switchCount t + k)

/-- Until cycle `t`, every weight read had room and every switch came on time. -/
structure Disciplined (t : Nat) : Prop where
  fit : C.ReadsFit
  reads : ∀ r a, (C.dispatched r).bind (·.tile?) = some a → r < t → C.Room r
  switches : ∀ d, (C.dispatched d).any (·.switches) = true → d < t → C.OnTime d

variable {C}

/-! ## Discipline -/

theorem Disciplined.quiet {t : Nat} (h : C.Disciplined t) : C.QuietBefore (t + 2) :=
  quiet_of_room h.fit (fun r a hr hrt => h.reads r a hr (by omega)) fun d hd hdt => h.switches d hd (by omega)

theorem Disciplined.succ {t : Nat} (h : C.Disciplined t) (hr : ∀ a, (C.dispatched t).bind (·.tile?) = some a → C.Room t)
    (hs : (C.dispatched t).any (·.switches) = true → C.OnTime t) : C.Disciplined (t + 1) := by
  refine ⟨h.fit, fun r a hra hrt => ?_, fun d hd hdt => ?_⟩
  · rcases Nat.lt_or_eq_of_le (Nat.le_of_lt_succ hrt) with hlt | rfl
    · exact h.reads r a hra hlt
    · exact hr a hra
  · rcases Nat.lt_or_eq_of_le (Nat.le_of_lt_succ hdt) with hlt | rfl
    · exact h.switches d hd hlt
    · exact hs hd

/-- Where nothing is dispatched, nothing can go wrong. -/
theorem Disciplined.rest {s t : Nat} (h : C.Disciplined s) (hno : ∀ u, s ≤ u → u < t → C.dispatched u = none) :
    C.Disciplined t := by
  refine ⟨h.fit, fun r a hra hrt => ?_, fun d hd hdt => ?_⟩
  · rcases Nat.lt_or_ge r s with hlt | hge
    · exact h.reads r a hra hlt
    · rw [hno r hge hrt] at hra
      cases hra
  · rcases Nat.lt_or_ge d s with hlt | hge
    · exact h.switches d hd hlt
    · rw [hno d hge hdt] at hd
      cases hd

/-! ## Counts -/

theorem readCount_succ (t : Nat) :
    C.readCount (t + 1) = C.readCount t + ((C.dispatched t).bind (·.tile?)).isSome.toNat := by
  rw [readCount, Nat.count_succ, readCount]
  cases ((C.dispatched t).bind (·.tile?)).isSome <;> rfl

theorem switchCount_succ (t : Nat) :
    C.switchCount (t + 1) = C.switchCount t + ((C.dispatched t).any (·.switches)).toNat := by
  rw [switchCount, Nat.count_succ, switchCount]
  cases (C.dispatched t).any (·.switches) <;> rfl

/-- Where nothing is dispatched, nothing is counted. -/
theorem counts_rest {s t : Nat} (hst : s ≤ t) (hno : ∀ u, s ≤ u → u < t → C.dispatched u = none) :
    C.readCount t = C.readCount s ∧ C.switchCount t = C.switchCount s := by
  induction t, hst using Nat.le_induction with
  | base => exact ⟨rfl, rfl⟩
  | succ t hst ih =>
    rw [readCount_succ, switchCount_succ, hno t hst (Nat.lt_succ_self t)]
    exact ih fun u hu hut => hno u hu (by omega)

/-! ## Waiting tiles -/

theorem length_waiting (t : Nat) : (C.waiting t).length = C.readCount t - C.switchCount t := by
  rw [waiting, List.length_map, List.length_range]

/-- A weight read puts its tile behind the others. -/
theorem waiting_of_read (hstay : C.TilesStay) {t : Nat} {a : UInt64} (hr : (C.dispatched t).bind (·.tile?) = some a)
    (hs : (C.dispatched t).any (·.switches) = false) (hle : C.switchCount t ≤ C.readCount t) :
    C.waiting (t + 1) = C.waiting t ++ [.ofRow C.chip.size ((C.memories t).weights.read a)] := by
  have hnamed := Supply.named_requested (show C.supply.request (t + 1) = some a by rw [request_succ, hr])
  rw [requested_succ] at hnamed
  have htile : C.tile (C.readCount t) = .ofRow C.chip.size ((C.memories t).weights.read a) := by
    rw [tile, Supply.tile, hnamed, weights_free hstay t]
    rfl
  have hcount : C.readCount t + 1 - C.switchCount t = C.readCount t - C.switchCount t + 1 := by omega
  rw [waiting, readCount_succ, switchCount_succ, hr, hs, Option.isSome_some, Bool.toNat_true, Bool.toNat_false,
    Nat.add_zero, hcount, List.range_succ, List.map_append, List.map_singleton, Nat.add_sub_cancel' hle, htile]
  rfl

/-- A switch takes the first tile, which is in use from then on. -/
theorem waiting_of_switch {t : Nat} (hr : (C.dispatched t).bind (·.tile?) = none)
    (hs : (C.dispatched t).any (·.switches) = true) (hlt : C.switchCount t < C.readCount t) :
    C.waiting t = C.current (t + 1) :: C.waiting (t + 1) := by
  have hcount : C.readCount t - C.switchCount t = C.readCount t - (C.switchCount t + 1) + 1 := by omega
  have hcurrent : C.current (t + 1) = C.tile (C.switchCount t + 0) := by
    rw [current, switchCount_succ, hs]
    rfl
  have hnext : C.waiting (t + 1) = (List.range (C.readCount t - (C.switchCount t + 1))).map fun k =>
      C.tile (C.switchCount t + (k + 1)) := by
    rw [waiting, readCount_succ, switchCount_succ, hr, hs, Option.isSome_none, Bool.toNat_true, Bool.toNat_false,
      Nat.add_zero]
    exact List.map_congr_left fun k _ => by rw [Nat.add_assoc, Nat.add_comm 1]
  rw [hcurrent, hnext, waiting, hcount, List.range_succ_eq_map, List.map_cons, List.map_map]
  rfl

/-- Other instructions leave the tiles alone. -/
theorem tiles_of_other {t : Nat} (hr : (C.dispatched t).bind (·.tile?) = none)
    (hs : (C.dispatched t).any (·.switches) = false) :
    C.waiting (t + 1) = C.waiting t ∧ C.current (t + 1) = C.current t := by
  rw [waiting, current, readCount_succ, switchCount_succ, hr, hs]
  exact ⟨rfl, rfl⟩

end Systolic.Course
