import Systolic.Proofs.Course.Basic

/-!
# One cycle, unit by unit

What each unit shows in a cycle of the machine, and what the cycle makes of its registers and of the memories. A cycle
that raises a hazard under `fail` leaves the machine as it is, every other one is `Machine.step` (`ticked_eq`).
-/

namespace Systolic.Machine

variable (m : Machine)

/-- The command that the units see. -/
def issue : Option Command := m.pipeline.sequencer.issue

/-- What the activation unit shows. -/
def activated : Activator.Output :=
  (m.pipeline.activator.step m.chip (m.issue.bind (·.activation?)) m.memories.acc).2

/-- What the sequencer sees. -/
def sees : Sequencer.Input :=
  { program := m.program, pad := m.memories.pad, redirect := m.activated.redirect, resolved := m.activated.resolved }

/-- What the host link moves. -/
def transferred : HostLink.Output :=
  (m.pipeline.hostLink.step m.chip m.issue m.memories.pad m.memories.host).2

/-- The row that enters the skew lines. -/
def pushed : Option MatrixRow := (m.pipeline.source.step (m.issue.bind (·.multiplication?)) m.memories.pad).2

/-- What leaves the skew lines. -/
def skewed : SkewLines.Output := (m.pipeline.skew.step m.pushed).2

/-- What leaves the array. -/
def product : Mesh.Output := (m.pipeline.mesh.step m.chip m.skewed.lanes m.pipeline.queue.front).2

/-- What the accumulators take over. -/
def committed : ControlChain.Output :=
  (m.pipeline.chain.step m.chip.accWidth m.skewed.control m.product.sums m.memories.acc).2

/-! ## The registers after a cycle -/

theorem sequencer_step : m.step.1.pipeline.sequencer = (m.pipeline.sequencer.step m.chip m.sees).1 := rfl

theorem hostLink_step : m.step.1.pipeline.hostLink =
    (m.pipeline.hostLink.step m.chip m.issue m.memories.pad m.memories.host).1 := rfl

theorem source_step : m.step.1.pipeline.source =
    (m.pipeline.source.step (m.issue.bind (·.multiplication?)) m.memories.pad).1 := rfl

theorem skew_step : m.step.1.pipeline.skew = (m.pipeline.skew.step m.pushed).1 := rfl

theorem mesh_step : m.step.1.pipeline.mesh =
    (m.pipeline.mesh.step m.chip m.skewed.lanes m.pipeline.queue.front).1 := rfl

theorem reader_step : m.step.1.pipeline.reader =
    (m.pipeline.reader.step m.chip (m.issue.bind (·.tile?)) m.memories.weights).1 := rfl

theorem chain_step : m.step.1.pipeline.chain =
    (m.pipeline.chain.step m.chip.accWidth m.skewed.control m.product.sums m.memories.acc).1 := rfl

theorem activator_step : m.step.1.pipeline.activator =
    (m.pipeline.activator.step m.chip (m.issue.bind (·.activation?)) m.memories.acc).1 := rfl

/-! ## The memories after a cycle -/

theorem pad_step : m.step.1.memories.pad =
    (m.memories.pad.commit m.activated.write).commit m.transferred.padWrite := rfl

theorem host_step : m.step.1.memories.host = m.memories.host.commit m.transferred.hostWrite := rfl

theorem acc_step : m.step.1.memories.acc = m.memories.acc.apply m.committed.writes := rfl

/-! ## What a cycle reports -/

theorem dispatched_step : m.step.2.dispatched = (m.pipeline.sequencer.step m.chip m.sees).2.dispatched := rfl

theorem redirect_step : m.step.2.redirect = m.activated.redirect := rfl

theorem multiplied_step : m.step.2.multiplied = m.committed.done := rfl

theorem hazards_step : m.step.2.hazards = m.product.hazard.toList ++
    if (m.pipeline.queue.step m.chip.size
      (m.pipeline.reader.step m.chip (m.issue.bind (·.tile?)) m.memories.weights).2 m.product.advance).2
    then [.queueOverflow] else [] := rfl

/-! ## Ticks -/

/-- A tick is a cycle, or it fails and leaves the machine as it is. -/
theorem ticked_eq : m.ticked = m.step.1 ∧ m.dispatched? = m.step.2.dispatched ∨
    m.ticked = m ∧ m.dispatched? = none := by
  unfold ticked dispatched? tick
  generalize m.step = s
  obtain ⟨next, events⟩ := s
  dsimp only
  cases m.chip.policy <;> cases events.hazards <;> first | exact Or.inl ⟨rfl, rfl⟩ | exact Or.inr ⟨rfl, rfl⟩

/-! ## Power-on and writes from outside -/

/-- A machine that has been built stands at power-on, and its parameters are sound. -/
theorem of_build {m : Machine} {chip : Chip} {program : Program} (h : build chip program = .ok m) :
    chip.Valid ∧ m = powerOn chip program := by
  unfold build at h
  cases hflaw : chip.flaw? with
  | some flaw =>
    rw [hflaw] at h
    cases h
  | none =>
    rw [hflaw] at h
    cases h
    exact ⟨Chip.flaw?_eq_none_iff.1 hflaw, rfl⟩

theorem chip_poke (p : Poke) : (m.poke p).chip = m.chip := by cases p <;> rfl

end Systolic.Machine
