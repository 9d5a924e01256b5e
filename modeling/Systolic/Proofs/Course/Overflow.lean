import Systolic.Proofs.Course.Multiply
import Systolic.Proofs.Queue.Bubbles
import Systolic.Proofs.Queue.Handover

/-!
# Lost bursts

When a course loses a weight burst. As long as the span of a weight read fits its counter, a weight read that is
dispatched while the queue has a free slot gets its whole tile in (`room_at_dispatch`); with a latency for which it does
not, the next read may take its place before its first burst (`not_room_at_dispatch`). When a burst is lost, all slots
were taken two cycles before, and they still are unless the array has dropped the front tile since then
(`queued_of_overflow`); so a queue of three tiles may lose one (`not_full_at_overflow`).

All this is said of what ticks report. A tick that fails goes on failing with the same hazard, whatever is written into the
memories in between (`raised_succ`), so what is reported has happened in a cycle up to which none has failed
(`exists_raised`).
-/

namespace Systolic

/-! ## What a write from outside leaves of a cycle's hazards -/

/-- Whether a switch enters the array does not depend on the elements of the row that is pushed. -/
theorem SkewLines.switching_step (s : SkewLines) {row? row'? : Option MatrixRow}
    (h : row?.map (·.switch) = row'?.map (·.switch)) :
    Mesh.switching (s.step row?).2.lanes = Mesh.switching (s.step row'?).2.lanes := by
  have hvalid : (entering row? 0).valid = (entering row'? 0).valid ∧
      (entering row? 0).switch = (entering row'? 0).switch := by
    cases row? <;> cases row'? <;> simp_all [entering, MatrixRow.lane]
  rcases s with ⟨_ | ⟨⟨regs⟩, lines⟩, control⟩
  · rfl
  · simp only [step, Mesh.switching, List.mapIdx_cons, List.getD_cons_zero, DelayLine.output]
    cases regs.getLast? with
    | none => rw [Option.getD_none, Option.getD_none, hvalid.1, hvalid.2]
    | some lane => rfl

/-- Whether the row that is pushed switches does not depend on the scratchpad. -/
theorem RowSource.switch_step (s : RowSource) (issue : Option Multiplication) (pad pad' : RowStore) :
    (s.step issue pad).2.map (·.switch) = (s.step issue pad').2.map (·.switch) := by
  unfold step
  cases (issue.map Job.ofCommand).or s.job with
  | none => rfl
  | some j => by_cases hj : j.remaining = 0 <;> simp [hj, Job.row]

/-- When a burst comes does not depend on the weight store. -/
theorem TileReader.isSome_step (chip : Chip) (r : TileReader) (request : Option UInt64) (store store' : TileStore) :
    (r.step chip request store).2.isSome = (r.step chip request store').2.isSome := by
  unfold step
  cases r.job with
  | none => rfl
  | some j => by_cases hj : 0 < j.wait <;> simp [Job.step, hj]

namespace Machine

variable {m : Machine}

/-- The hazards of a cycle do not depend on the memories. -/
theorem hazards_memories (m : Machine) (memories : Memories) :
    ({ m with memories } : Machine).step.2.hazards = m.step.2.hazards := by
  have hswitch : Mesh.switching ({ m with memories } : Machine).skewed.lanes = Mesh.switching m.skewed.lanes :=
    SkewLines.switching_step _ (RowSource.switch_step _ _ _ _)
  have hhazard : ({ m with memories } : Machine).product.hazard = m.product.hazard := by
    change m.pipeline.mesh.hazard? _ = m.pipeline.mesh.hazard? _
    rw [Mesh.hazard?, Mesh.hazard?, hswitch]
  have hburst := TileReader.isSome_step m.chip m.pipeline.reader (m.issue.bind (·.tile?)) memories.weights
    m.memories.weights
  have hlost := congrArg (· && m.pipeline.queue.full m.chip.size && !m.pipeline.queue.drains m.chip.size) hburst
  rw [hazards_step, hazards_step, hhazard]
  exact congrArg (fun lost : Bool => m.product.hazard.toList ++ if lost then [.queueOverflow] else []) hlost

theorem hazards_poke (m : Machine) (p : Poke) : (m.poke p).step.2.hazards = m.step.2.hazards := by
  cases p <;> exact hazards_memories m _

/-- What a tick reports follows from the hazards of the cycle. -/
theorem raised_congr {m m' : Machine} (hpolicy : m'.chip.policy = m.chip.policy)
    (hz : m'.step.2.hazards = m.step.2.hazards) : m'.raised = m.raised ∧ m'.tick.isOk = m.tick.isOk := by
  unfold raised tick
  rw [hpolicy]
  generalize m'.step = s' at hz
  generalize m.step = s at hz
  obtain ⟨next', events'⟩ := s'
  obtain ⟨next, events⟩ := s
  dsimp only at hz ⊢
  rw [hz]
  cases m.chip.policy <;> cases hs : events.hazards <;> simp [hz, hs, Except.isOk, Except.toBool]

theorem raised_pokeAll (m : Machine) (ps : List Poke) :
    (m.pokeAll ps).raised = m.raised ∧ (m.pokeAll ps).tick.isOk = m.tick.isOk := by
  induction ps generalizing m with
  | nil => exact ⟨rfl, rfl⟩
  | cons p ps ih =>
    obtain ⟨hraised, hok⟩ := ih (m.poke p)
    obtain ⟨hraised', hok'⟩ := raised_congr (by rw [chip_poke]) (m.hazards_poke p)
    exact ⟨hraised.trans hraised', hok.trans hok'⟩

theorem mem_hazards_of_raised {m : Machine} {z : Hazard} (h : z ∈ m.raised) : z ∈ m.step.2.hazards := by
  unfold raised tick at h
  generalize m.step = s at h ⊢
  obtain ⟨next, events⟩ := s
  dsimp only at h ⊢
  cases hp : m.chip.policy <;> cases hs : events.hazards <;> simp_all

theorem raised_of_isOk {m : Machine} (h : m.tick.isOk = true) : m.raised = m.step.2.hazards := by
  rcases m.tick_eq with htick | ⟨-, z, htick⟩
  · rw [raised, htick]
  · rw [htick] at h
    cases h

end Machine

namespace Course

variable {C : Course} {d u : Nat} {i : Instruction}

/-! ## Courses that a hazard stops -/

/-- After a tick that has failed, the next one fails with the same hazard. -/
theorem raised_succ (h : (C.machine u).tick.isOk = false) :
    (C.machine (u + 1)).raised = (C.machine u).raised ∧ (C.machine (u + 1)).tick.isOk = false := by
  obtain ⟨hraised, hok⟩ := (C.machine u).raised_pokeAll (C.pokes (u + 1))
  rw [machine, Machine.ticked_of_fails h]
  exact ⟨hraised, hok.trans h⟩

/-- Before a tick that succeeds, none has failed. -/
theorem unbroken_of_isOk (h : (C.machine u).tick.isOk = true) : C.Unbroken (u + 1) := by
  intro v hv
  induction u with
  | zero => rwa [Nat.lt_one_iff.1 hv]
  | succ u ih =>
    rcases Nat.lt_or_eq_of_le (Nat.le_of_lt_succ hv) with hlt | rfl
    · cases hok : (C.machine u).tick.isOk with
      | true => exact ih hok hlt
      | false =>
        rw [(raised_succ hok).2] at h
        cases h
    · exact h

theorem unbroken_of_issued (h : C.issued d = some i) : C.Unbroken (d + 1) := by
  refine unbroken_of_isOk ?_
  cases hok : (C.machine d).tick with
  | ok r => rfl
  | error fault =>
    rw [issued, Machine.dispatched?, hok] at h
    cases h

/-- What a tick reports is what it has reported in the first cycle that it could not go beyond. -/
theorem exists_raised (u : Nat) : ∃ v ≤ u, C.Unbroken v ∧ (C.machine v).raised = (C.machine u).raised := by
  induction u with
  | zero => exact ⟨0, Nat.le_refl 0, fun v hv => absurd hv (Nat.not_lt_zero v), rfl⟩
  | succ u ih =>
    cases hok : (C.machine u).tick.isOk with
    | true => exact ⟨u + 1, Nat.le_refl _, unbroken_of_isOk hok, rfl⟩
    | false =>
      obtain ⟨v, hv, hunbroken, hraised⟩ := ih
      exact ⟨v, by omega, hunbroken, hraised.trans (raised_succ hok).1.symm⟩

/-- The queue reports a burst when it is lost. -/
theorem mem_hazards_free : .queueOverflow ∈ (C.free u).step.2.hazards ↔ C.supply.overflows u = true := by
  have harray : (C.array.output u).hazard ≠ some .queueOverflow := Mesh.hazard?_ne _ _
  rw [hazards_free]
  cases hz : (C.array.output u).hazard with
  | none => simp
  | some z =>
    rw [hz] at harray
    have hne : z ≠ .queueOverflow := fun h => harray (congrArg some h)
    simp [hne.symm]

theorem Unbroken.overflows (h : C.Unbroken u) (hz : .queueOverflow ∈ (C.machine u).raised) :
    C.supply.overflows u = true := by
  have hfree := Machine.mem_hazards_of_raised hz
  rw [h.machine_eq] at hfree
  exact mem_hazards_free.1 hfree

/-- Where no overflow has been reported, none has happened. -/
theorem Unbroken.kept (h : C.Unbroken u) (hno : ∀ v < u, .queueOverflow ∉ (C.machine v).raised) :
    C.supply.KeptBefore u := by
  intro v hv
  by_contra hne
  refine hno v hv ?_
  rw [Machine.raised_of_isOk (h v hv), (h.mono (Nat.le_of_lt hv)).machine_eq]
  exact mem_hazards_free.2 (by simpa using hne)

/-! ## Weight reads and the queue -/

theorem rested_supply (hw : C.ReadsFit) : C.supply.Rested := ⟨request_zero, fun _ h => rests_before_request hw h⟩

theorem Unbroken.queue_eq (h : C.Unbroken u) : (C.machine u).pipeline.queue = C.supply.queue u := by
  rw [h.machine_eq, queue_free]

theorem Unbroken.queued_eq (h : C.Unbroken u) : (C.machine u).queued = (C.supply.queue u).occupancy C.chip.size := by
  rw [Machine.queued, h.machine_eq, queue_free, chip_free]

/-- A tile leaves the queue when the array drops it. -/
theorem Unbroken.left?_eq (h : C.Unbroken (u + 1)) : (C.machine u).left?.isSome = C.supply.leaves u := by
  have htakes : (C.free u).pipeline.mesh.advance (C.free u).chip.size = C.supply.advance u := by
    rw [mesh_free, chip_free]
    rfl
  rw [Machine.left?_eq (Machine.of_tick_isOk (h u (Nat.lt_succ_self u))).1, (h.mono (Nat.le_succ u)).machine_eq,
    htakes, queue_free, Supply.leaves]
  cases C.supply.advance u <;> simp

/-- The array drops the front tile in cycle 77, one cycle before the first burst of the sixth read is due. -/
def lateDrop : Course where
  chip := { size := 4, padRows := 1, accRows := 1, hostRows := 1, tiles := 1, burstBytes := 16, latency := 4,
            policy := .ignore }
  valid := Chip.flaw?_eq_none_iff.1 (by decide)
  program := ⟨[.readWeights 0, .readWeights 0, .readWeights 0, .readWeights 0, .readWeights 0, .sync,
    (Instruction.multiply 0 0 1).withSwitch, .readWeights 0, .halt]⟩
  start :=
    { pad := .blank 1 4
      host := .blank 1 4
      acc := ⟨#[[0, 0, 0, 0]]⟩
      weights := ⟨#[[1, 2, 3, 4, 5, 6, 7, 8, 9, 10, 11, 12, 13, 14, 15, 16]]⟩ }
  fits := ⟨⟨by decide, by decide⟩, ⟨by decide, by decide⟩⟩
  pokes _ := []

/-- The first burst that is lost finds three tiles in the queue. -/
theorem lateDrop_cycles : (∀ v < 78, .queueOverflow ∉ (lateDrop.machine v).raised) ∧
    .queueOverflow ∈ (lateDrop.machine 78).raised ∧ lateDrop.issued 56 = some (.readWeights 0) ∧
    (lateDrop.machine 56).queued = 3 ∧ (lateDrop.machine 62).memories.weights = lateDrop.start.weights ∧
    (lateDrop.machine 77).left?.isSome = true ∧ (lateDrop.machine 78).queued = 3 := by
  decide +kernel

/-- **Where a burst is lost.** When the queue loses a burst for the first time, slots 1 and 2 hold tiles, and two cycles
ago all slots did. They still do, unless the front tile has left since then. -/
theorem queued_of_overflow (hw : C.chip.weightSpan < 2 ^ 64) (hz : .queueOverflow ∈ (C.machine u).raised)
    (hno : ∀ v < u, .queueOverflow ∉ (C.machine v).raised) :
    ∃ t, u = t + 2 ∧ (C.machine u).pipeline.queue.full C.chip.size = true ∧
      (C.machine u).pipeline.queue.second.isSome = true ∧ (C.machine t).queued = 4 ∧
      (C.machine u).queued =
        if (C.machine t).left?.isSome = true ∨ (C.machine (t + 1)).left?.isSome = true then 3 else 4 := by
  have hu : C.Unbroken u := by
    obtain ⟨v, hv, hunbroken, hraised⟩ := exists_raised (C := C) u
    rcases Nat.lt_or_eq_of_le hv with hlt | rfl
    · exact absurd (hraised ▸ hz) (hno v hlt)
    · exact hunbroken
  have hfit : C.ReadsFit := fun _ _ _ => hw
  have hr := regular_supply hfit
  obtain ⟨q, a, -, hlast, hstuck, hquiet⟩ :=
    Supply.of_overflows hr (rested_supply hfit) (hu.kept hno) (hu.overflows hz)
  obtain ⟨t, rfl⟩ : ∃ t, u = t + 2 := ⟨u - 2, by omega⟩
  obtain ⟨hfour, hocc⟩ := hstuck.occupancy hr (hquiet t (by omega) (by omega)) (hquiet (t + 1) (by omega) (by omega))
  have hleft {v : Nat} (hv : v < t + 2) : (C.machine v).left?.isSome = C.supply.leaves v :=
    (hu.mono hv).left?_eq
  refine ⟨t, rfl, ?_, ?_, ?_, ?_⟩
  · rw [hu.queue_eq]
    exact hstuck.full
  · rw [hu.queue_eq]
    exact hstuck.second
  · rw [(hu.mono (by omega)).queued_eq]
    exact hfour
  · rw [hu.queued_eq, hleft (by omega), hleft (by omega)]
    exact hocc

theorem queued_of_overflow_lateDrop :
    lateDrop.chip.weightSpan < 2 ^ 64 ∧ .queueOverflow ∈ (lateDrop.machine 78).raised ∧
    (lateDrop.machine 77).left?.isSome = true ∧ (lateDrop.machine 76).queued = 4 ∧
    (lateDrop.machine 78).queued = 3 := by
  have hw : lateDrop.chip.weightSpan < 2 ^ 64 := by decide
  obtain ⟨hno, hz, -, -, -, hleft, -⟩ := lateDrop_cycles
  obtain ⟨t, ht, -, -, hfour, hqueued⟩ := queued_of_overflow hw hz hno
  obtain rfl : t = 76 := by omega
  rw [if_pos (Or.inr hleft)] at hqueued
  exact ⟨hw, hz, hleft, hfour, hqueued⟩

/-- The queue need not be full when it loses a burst: a slot that has become free at the front is no room in slot 1 yet. -/
theorem not_full_at_overflow : ¬ ∀ (C : Course) (u : Nat), .queueOverflow ∈ (C.machine u).raised →
    (∀ v < u, .queueOverflow ∉ (C.machine v).raised) → (C.machine u).queued = 4 := by
  intro h
  obtain ⟨hno, hz, -, -, -, -, hthree⟩ := lateDrop_cycles
  have hfour := h lateDrop 78 hz hno
  omega

end Course

end Systolic
