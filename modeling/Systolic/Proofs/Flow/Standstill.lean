import Systolic.Proofs.Machine.Shape
import Systolic.Proofs.Policy.Agreement

/-!
# After the halt

A `HLT` waits for every busy counter, and the counters cover all that is still to be written if all that has been
dispatched fits them. So a halted machine stands still: its sequencer does not change any more
(`Machine.sequencer_of_halted`), a cycle reports nothing (`Machine.events_of_halted`) and writes nothing, while weights
may still be on their way through the queue and into the array. `Machine.FitReachable.halt_is_final` is the law for all
the ticks after a `HLT`. Behind a transfer that does not fit, a `HLT` ends nothing (`Machine.not_halt_is_final`).
-/

namespace Systolic

/-- A halted sequencer does not stall. -/
theorem Sequencer.stalled_of_halted {chip : Chip} {s : Sequencer} {input : Input} (h : s.halted = true) :
    (s.step chip input).2.stalled = false := by
  simp [step, h]

/-- Counters that stand at zero stay there. -/
theorem Sequencer.countDown_of_idle {s : Sequencer} (hbusy : s.busy = {}) (hcooldown : s.cooldown = 0)
    (hissue : s.issue = none) (resolved : Bool) : s.countDown resolved = s := by
  obtain ⟨pc, busy, cooldown, halted, issue⟩ := s
  obtain rfl : busy = {} := hbusy
  obtain rfl : cooldown = 0 := hcooldown
  obtain rfl : issue = none := hissue
  cases resolved <;> rfl

namespace Machine

variable {m : Machine}

/-! ## One cycle -/

section Halted

variable (h : m.pipeline.Covered m.chip) (hh : m.halted = true)
include h hh

/-- Every counter of a halted machine stands at zero. -/
theorem busy_of_halted : m.busy = {} := (h.rests hh).1

/-- The sequencer of a halted machine has come to its last state. -/
theorem sequencer_of_halted : m.step.1.pipeline.sequencer = m.pipeline.sequencer := by
  have hbusy : m.pipeline.sequencer.busy = {} := busy_of_halted h hh
  have hcooldown : m.pipeline.sequencer.cooldown = 0 := by
    have hle := h.cooldown
    rw [hbusy] at hle
    exact UInt64.toNat_inj.1 (Nat.le_zero.1 hle)
  have hredirect : m.sees.redirect = none := by
    change m.activated.redirect = none
    rw [activated_of_idle h.toCounted (by rw [busy_of_halted h hh])]
  rw [sequencer_step, (Sequencer.step_of_none (Sequencer.step_of_halted hh).1).1, hredirect, Option.getD_none,
    Sequencer.countDown_of_idle hbusy hcooldown (h.rests hh).2]

/-- A cycle of a halted machine reports nothing. -/
theorem events_of_halted : m.step.2 =
    { cycle := m.cycle, pc := m.pc, dispatched := none, stalled := false, redirect := none, multiplied := false,
      hazards := [] } := by
  have hbusy := busy_of_halted h hh
  have hdispatched : m.step.2.dispatched = none := (Sequencer.step_of_halted hh).1
  have hstalled : m.step.2.stalled = false := Sequencer.stalled_of_halted hh
  have hredirect : m.step.2.redirect = none := by
    rw [redirect_step, activated_of_idle h.toCounted (by rw [hbusy])]
  have hmultiplied : m.step.2.multiplied = false :=
    multiplied_of_arrayIdle (h.idle (k := .matrix) (by rw [← Machine.busy, hbusy]; rfl)) h.shaped
  have hhazards : m.step.2.hazards = [] := hazards_of_idle h (by rw [hbusy]) (by rw [hbusy])
  calc m.step.2
      = ⟨m.cycle, m.pc, m.step.2.dispatched, m.step.2.stalled, m.step.2.redirect, m.step.2.multiplied,
          m.step.2.hazards⟩ := rfl
    _ = _ := by rw [hdispatched, hstalled, hredirect, hmultiplied, hhazards]

/-- A tick of a halted machine succeeds, under every hazard policy. -/
theorem tick_of_halted : m.tick = .ok (m.step.1,
    { cycle := m.cycle, pc := m.pc, dispatched := none, stalled := false, redirect := none, multiplied := false,
      hazards := [] }) := by
  have hevents := events_of_halted h hh
  rw [tick_of_quiet (by rw [hevents]), ← hevents]

end Halted

/-! ## All cycles -/

/-- What a halted machine keeps, `n` cycles later. -/
structure Stands (m final : Machine) (n : Nat) : Prop where
  covered : final.pipeline.Covered final.chip
  sequencer : final.pipeline.sequencer = m.pipeline.sequencer
  memories : final.memories = m.memories
  cycle : final.cycle = m.cycle + n
  summary : final.summary = { m.summary with cycles := m.summary.cycles + n }

theorem Stands.halted {final : Machine} {n : Nat} (h : m.Stands final n) (hh : m.halted = true) :
    final.halted = true := by
  rw [Machine.halted, h.sequencer]
  exact hh

theorem Stands.step {final : Machine} {n : Nat} (h : m.Stands final n) (hh : m.halted = true) :
    m.Stands final.step.1 (n + 1) := by
  have hfinal := h.halted hh
  constructor
  · refine covered_step h.covered fun i hi => ?_
    rw [events_of_halted h.covered hfinal] at hi
    cases hi
  · rw [sequencer_of_halted h.covered hfinal, h.sequencer]
  · rw [memories_of_idle h.covered (busy_of_halted h.covered hfinal), h.memories]
  · change final.cycle + 1 = m.cycle + (n + 1)
    rw [h.cycle, Nat.add_assoc]
  · change final.summary.add final.step.2 = _
    rw [events_of_halted h.covered hfinal, h.summary]
    simp [Summary.add, Nat.add_assoc]

/-- A halted machine stands still. -/
theorem stands_ticks (h : m.pipeline.Covered m.chip) (hh : m.halted = true) (n : Nat) : m.Stands (m.ticks n) n := by
  induction n with
  | zero => exact ⟨h, rfl, rfl, rfl, rfl⟩
  | succ n ih =>
    rw [ticks, ticked_of_tick (tick_of_halted ih.covered (ih.halted hh))]
    exact ih.step hh

/-- The machine behind the cycle that dispatches a `HLT`. -/
theorem halt_step (h : m.pipeline.Covered m.chip) {i : Instruction} (hi : m.step.2.dispatched = some i)
    (ho : i.opcode = .halt) : m.program.fetch m.pc = i ∧ m.step.1.halted = true ∧ m.step.1.pc = m.pc ∧
      m.step.1.memories = m.memories := by
  have hbusy := busy_of_dispatched hi (Or.inr ho)
  obtain ⟨-, hfetch, -, hseq⟩ := Sequencer.of_dispatched ((dispatched_step m).symm.trans hi)
  have hredirect : m.sees.redirect = none := by
    change m.activated.redirect = none
    rw [activated_of_idle h.toCounted (by rw [hbusy])]
  refine ⟨hfetch.symm, ?_, ?_, memories_of_idle h hbusy⟩
  · rw [Machine.halted, sequencer_step, hseq]
    exact decide_eq_true ho
  · rw [Machine.pc, sequencer_step, hseq, hredirect, if_pos ho]
    rfl

variable {chip : Chip} {program : Program}

theorem Reachable.ticks (h : Reachable chip program m) (n : Nat) : Reachable chip program (m.ticks n) := by
  induction n with
  | zero => exact h
  | succ n ih => exact ih.tick

/-- **A halted machine is final.** In whatever state and under whatever hazard policy a `HLT` is dispatched, if all that
was dispatched before fits its counter: any number of ticks later the machine is halted with the program counter on the
`HLT`, its memories are what they were when the `HLT` was dispatched, and its summary counts further cycles but no
dispatch, no stall and no hazard. The next tick succeeds, dispatches nothing, redirects nothing, ends no multiplication
and shows no hazard. -/
theorem FitReachable.halt_is_final (h : FitReachable chip program m) {i : Instruction} (hi : m.dispatched? = some i)
    (ho : i.opcode = .halt) (n : Nat) :
    program.fetch m.pc = i ∧ (m.ticked.ticks n).halted = true ∧ (m.ticked.ticks n).pc = m.pc ∧
    (m.ticked.ticks n).memories = m.memories ∧
    (m.ticked.ticks n).summary = { m.ticked.summary with cycles := m.ticked.summary.cycles + n } ∧
    (m.ticked.ticks n).tick = .ok (m.ticked.ticks (n + 1),
      { cycle := m.ticked.cycle + n, pc := m.pc, dispatched := none, stalled := false, redirect := none,
        multiplied := false, hazards := [] }) := by
  rcases m.ticked_eq with ⟨hticked, hd⟩ | ⟨-, hd⟩ <;> rw [hd] at hi
  swap
  · cases hi
  obtain ⟨hfetch, hhalted, hpc, hmemories⟩ := halt_step h.covered hi ho
  rw [hticked]
  have hcovered : m.step.1.pipeline.Covered m.step.1.chip := by
    refine covered_step h.covered fun j hj => ?_
    obtain rfl := Option.some.inj (hi.symm.trans hj)
    exact i.fits_of_halt m.chip ho
  have hstands := stands_ticks hcovered hhalted n
  have hfinal := hstands.halted hhalted
  have hpcs : (m.step.1.ticks n).pc = m.pc := by
    rw [Machine.pc, hstands.sequencer]
    exact hpc
  have htick := tick_of_halted hstands.covered hfinal
  rw [hstands.cycle, hpcs] at htick
  refine ⟨?_, hfinal, hpcs, hstands.memories.trans hmemories, hstands.summary, ?_⟩
  · rw [← h.reachable.of.2]
    exact hfetch
  · rw [Machine.ticks, ticked_of_tick htick]
    exact htick

/-- A chip that goes on after a switch to weights that nobody has loaded, and halts behind an activation of no rows. -/
def unprepared : Machine :=
  (powerOn { size := 4, padRows := 1, accRows := 1, hostRows := 1, tiles := 1, policy := .ignore }
    ⟨[(Instruction.multiply 0 0 1).withSwitch, .readWeights 0, .activate 0 0 0 .relu, .halt]⟩).poke
      (.tile 0 [1, 2, 3, 4, 5, 6, 7, 8, 9, 10, 11, 12, 13, 14, 15, 16])

/-- The first column of the tile has been staged when the machine has halted; the others follow. -/
theorem FitReachable.halt_is_final_unprepared :
    FitReachable unprepared.chip unprepared.program (unprepared.ticks 13) ∧
    (unprepared.ticks 13).dispatched? = some .halt ∧
    (unprepared.ticks 13).summary.hazards = [⟨2, .switchWithoutWeights⟩] ∧
    (unprepared.ticks 14).pipeline.mesh.staged = [[1, 0, 0, 0], [5, 0, 0, 0], [9, 0, 0, 0], [13, 0, 0, 0]] ∧
    (unprepared.ticks 17).pipeline.mesh.staged = [[1, 2, 3, 4], [5, 6, 7, 8], [9, 10, 11, 12], [13, 14, 15, 16]] ∧
    ∀ n, ((unprepared.ticks 13).ticked.ticks n).halted = true ∧ ((unprepared.ticks 13).ticked.ticks n).pc = 3 ∧
      ((unprepared.ticks 13).ticked.ticks n).memories = (unprepared.ticks 13).memories := by
  have hfit : unprepared.program.SpansFit unprepared.chip := by decide +kernel
  have hreach : FitReachable unprepared.chip unprepared.program (unprepared.ticks 13) :=
    (((Reachable.build rfl).poke _).ticks 13).fit hfit
  have hhalt : (unprepared.ticks 13).dispatched? = some .halt := by decide +kernel
  have hpc : (unprepared.ticks 13).pc = 3 := by decide +kernel
  refine ⟨hreach, hhalt, by decide +kernel, by decide +kernel, by decide +kernel, ?_⟩
  intro n
  obtain ⟨-, hhalted, hpcs, hmemories, -⟩ := hreach.halt_is_final hhalt rfl n
  exact ⟨hhalted, hpcs.trans hpc, hmemories⟩

/-- A chip that halts behind as many rows as a length can give, whose span is `2 ^ 64`. -/
def hasty : Machine :=
  (powerOn { size := 4, padRows := 2, accRows := 1, hostRows := 2, tiles := 1, layout := { length := 8 } }
    ⟨[.readHost 0 0 18446744073709551615, .halt]⟩).poke (.host 0 [5, 5, 5, 5])

/-- It is halted, and the rows go on to land in the scratchpad. -/
theorem not_halt_is_final : ¬ ∀ (chip : Chip) (program : Program) (m : Machine), Reachable chip program m →
    ∀ i, m.dispatched? = some i → i.opcode = .halt → ∀ n, (m.ticked.ticks n).memories = m.memories := by
  intro h
  have hreach : Reachable hasty.chip hasty.program hasty.ticked := ((Reachable.build rfl).poke _).tick
  have hhalt : hasty.ticked.dispatched? = some .halt := by decide +kernel
  have hstays := h _ _ _ hreach _ hhalt rfl 1
  exact absurd (congrArg (·.pad.read 0) hstays) (by decide +kernel)

end Machine

end Systolic
