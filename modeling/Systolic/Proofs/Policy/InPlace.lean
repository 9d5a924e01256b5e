import Systolic.Proofs.Machine.Operation

/-!
# A tick in place

Whoever holds a machine has it updated where it stands: unit after unit, memory after memory, counter after counter. A
fault in the middle would leave a machine that is half of one cycle and half of the next. `Machine.tickInPlace` is a
tick as such a sequence of updates, with the machine that a fault leaves behind; it is `Machine.tick`, and a tick that
fails leaves the machine as it was (`tickInPlace_eq`).
-/

namespace Systolic.Machine

/-- What the policy makes of the hazards of a cycle, one after the other. -/
def answer (policy : HazardPolicy) (cycle : Nat) : List Hazard → EStateM Fault Machine Unit
  | [] => pure ()
  | h :: hs =>
    match policy with
    | .ignore | .warn => answer policy cycle hs
    | .fail => throw (.hazard cycle h)

/-- One cycle as a sequence of updates. All units are evaluated first, then the hazards are answered, and only then the
registers are replaced and the memories written. -/
def tickInPlace : EStateM Fault Machine CycleEvents := do
  let m ← get
  let { pad, host, acc, weights } := m.memories
  let p := m.pipeline
  let issue := p.sequencer.issue
  let (activator, act) := p.activator.step m.chip (issue.bind (·.activation?)) acc
  let (sequencer, dispatch) :=
    p.sequencer.step m.chip { program := m.program, pad, redirect := act.redirect, resolved := act.resolved }
  let (hostLink, transfer) := p.hostLink.step m.chip issue pad host
  let (source, row?) := p.source.step (issue.bind (·.multiplication?)) pad
  let (skew, skewed) := p.skew.step row?
  let (reader, burst?) := p.reader.step m.chip (issue.bind (·.tile?)) weights
  let (mesh, product) := p.mesh.step m.chip skewed.lanes p.queue.front
  let (queue, overflow) := p.queue.step m.chip.size burst? product.advance
  let (chain, commit) := p.chain.step m.chip.accWidth skewed.control product.sums acc
  let hazards := product.hazard.toList ++ if overflow then [.queueOverflow] else []
  answer m.chip.policy m.cycle hazards
  let events : CycleEvents :=
    { cycle := m.cycle
      pc := p.sequencer.pc
      dispatched := dispatch.dispatched
      stalled := dispatch.stalled
      redirect := act.redirect
      multiplied := commit.done
      hazards }
  modify fun m => { m with pipeline.activator := activator }
  modify fun m => { m with pipeline.sequencer := sequencer }
  modify fun m => { m with pipeline.hostLink := hostLink }
  modify fun m => { m with pipeline.source := source }
  modify fun m => { m with pipeline.skew := skew }
  modify fun m => { m with pipeline.reader := reader }
  modify fun m => { m with pipeline.mesh := mesh }
  modify fun m => { m with pipeline.queue := queue }
  modify fun m => { m with pipeline.chain := chain }
  modify fun m => { m with memories.pad := m.memories.pad.commit act.write }
  modify fun m => { m with memories.pad := m.memories.pad.commit transfer.padWrite }
  modify fun m => { m with memories.host := m.memories.host.commit transfer.hostWrite }
  modify fun m => { m with memories.acc := m.memories.acc.apply commit.writes }
  modify fun m => { m with summary := m.summary.add events }
  modify fun m => { m with cycle := m.cycle + 1 }
  return events

/-- A policy that goes on lets every list of hazards pass. -/
theorem answer_of_ne_fail {policy : HazardPolicy} (h : policy ≠ .fail) (cycle : Nat) (hazards : List Hazard)
    (m : Machine) : answer policy cycle hazards m = .ok () m := by
  induction hazards with
  | nil => rfl
  | cons z zs ih =>
    cases policy with
    | ignore => exact ih
    | warn => exact ih
    | fail => exact absurd rfl h

/-! ## A tick by its policy -/

/-- Under a policy that goes on a tick is a cycle. -/
theorem tick_of_ne_fail {m : Machine} (h : m.chip.policy ≠ .fail) : m.tick = .ok m.step := by
  rcases m.tick_eq with htick | ⟨hpolicy, -⟩
  · exact htick
  · exact absurd hpolicy h

/-- Under `fail` the first hazard of a cycle is the error. -/
theorem tick_of_fail {m : Machine} (h : m.chip.policy = .fail) {z : Hazard} {zs : List Hazard}
    (hz : m.step.2.hazards = z :: zs) : m.tick = .error (.hazard m.cycle z) := by
  simp [tick, h, hz]

section Bind

variable {ε σ α β : Type} {x : EStateM ε σ α} {s s' : σ}

theorem bind_of_ok {a : α} (h : x s = .ok a s') (f : α → EStateM ε σ β) : (x >>= f) s = f a s' := by
  simp only [bind, EStateM.bind, h]

theorem bind_of_error {e : ε} (h : x s = .error e s') (f : α → EStateM ε σ β) : (x >>= f) s = .error e s' := by
  simp only [bind, EStateM.bind, h]

theorem get_eq (s : σ) : (get : EStateM ε σ σ) s = .ok s s := rfl

end Bind

/-- A cycle whose hazards are let pass is carried out. -/
theorem tickInPlace_of_ok {m : Machine} (h : answer m.chip.policy m.cycle m.step.2.hazards m = .ok () m) :
    tickInPlace m = .ok m.step.2 m.step.1 := by
  rw [tickInPlace, bind_of_ok (get_eq m)]
  exact bind_of_ok h _

/-- A cycle whose hazards are an error stops before the first update. -/
theorem tickInPlace_of_error {m m' : Machine} {fault : Fault}
    (h : answer m.chip.policy m.cycle m.step.2.hazards m = .error fault m') : tickInPlace m = .error fault m' := by
  rw [tickInPlace, bind_of_ok (get_eq m)]
  exact bind_of_error h _

/-- **A tick is atomic.** Updated in place, a machine ends up as after the cycle, or as it was before it. -/
theorem tickInPlace_eq (m : Machine) : tickInPlace m =
    match m.tick with
    | .ok (next, events) => .ok events next
    | .error fault => .error fault m := by
  cases hz : m.step.2.hazards with
  | nil =>
    rw [tick_of_quiet hz]
    apply tickInPlace_of_ok
    rw [hz]
    rfl
  | cons z zs =>
    by_cases hpolicy : m.chip.policy = .fail
    · rw [tick_of_fail hpolicy hz]
      apply tickInPlace_of_error
      rw [hpolicy, hz]
      rfl
    · rw [tick_of_ne_fail hpolicy]
      apply tickInPlace_of_ok
      exact answer_of_ne_fail hpolicy _ _ _

end Systolic.Machine
