import Systolic.Proofs.Occupancy.Array

/-!
# Reachable machines

A machine is reachable if ticks, resets and writes from outside lead to it from power-on. In all of them the counter of
the activation unit is exact (`Pipeline.Counted`). The other busy counters outlast their units as long as the spans of what
is dispatched fit them (`Pipeline.Covered`, kept by a cycle in `Machine.covered_step`), which makes dispatch a sound
admission control (`Machine.FitReachable.admission`): a class of units whose counter stands at zero is idle, a command
that is issued finds its units idle, and a `SYNC` or `HLT` is dispatched only when nothing is left to be written.
-/

namespace Systolic

open Sequencer

/-! ## The counter of the activation unit -/

/-- The counter of the activation unit is set by an activation, cleared when one resolves, and goes down otherwise. -/
theorem Sequencer.activate_step {chip : Chip} {s : Sequencer} {input : Input} :
    (s.step chip input).1.busy.activate.toNat =
      (((s.step chip input).1.issue.bind (·.activation?)).map (·.length.toNat)).getD
        (if input.resolved then 0 else s.busy.activate.toNat - 1) := by
  have hwait : (s.countDown input.resolved).busy.activate.toNat =
      if input.resolved then 0 else s.busy.activate.toNat - 1 := by
    cases input.resolved with
    | true => rfl
    | false => exact toNat_tickDown _
  rw [busy_step]
  cases (s.step chip input).1.issue with
  | none => exact hwait
  | some c => cases c <;> first | exact hwait | rfl

/-- An activation is issued only when no other one runs. -/
theorem Sequencer.activate_ready {chip : Chip} {s : Sequencer} {input : Input}
    (h : ((s.step chip input).1.issue.bind (·.activation?)).isSome = true) : s.busy.activate = 0 := by
  obtain ⟨a, ha⟩ := Option.isSome_iff_exists.1 h
  obtain ⟨c, hc, -⟩ := Option.bind_eq_some_iff.1 ha
  exact (ready_of_issue hc).1

/-! ## Busy counters outlast the units -/

/-- What holds of the counters whatever the spans: the one of the activation unit is right, to the row. -/
structure Pipeline.Counted (chip : Chip) (p : Pipeline) : Prop where
  shaped : p.Shaped chip
  activate : p.activator.Paced (p.sequencer.issue.bind (·.activation?)) p.sequencer.busy.activate.toNat
  rests : p.sequencer.Rests

/-- Every busy counter outlasts its units. -/
structure Pipeline.Covered (chip : Chip) (p : Pipeline) : Prop extends p.Counted chip where
  host : Covers p.hostLink.Within (p.sequencer.issue.bind hostSet) p.sequencer.busy.host.toNat
  weights : Covers (p.reader.Within chip) (p.sequencer.issue.bind (weightsSet chip)) p.sequencer.busy.weights.toNat
  matrix : Covers (p.ArrayWithin chip) (p.sequencer.issue.bind (matrixSet chip)) p.sequencer.busy.matrix.toNat
  cooldown : p.sequencer.cooldown.toNat ≤ p.sequencer.busy.matrix.toNat

namespace Pipeline

/-- A pipeline in which nothing is under way, whatever its counters were before. -/
theorem Covered.of_idle {chip : Chip} {p : Pipeline} (hshaped : p.Shaped chip) (hseq : p.sequencer = {})
    (hlink : ∀ n, p.hostLink.Within n) (hreader : p.reader = {}) (harray : p.ArrayIdle) (hact : p.activator = {}) :
    p.Covered chip := by
  refine ⟨⟨hshaped, ?_, ?_⟩, ?_, ?_, ?_, ?_⟩ <;> rw [hseq]
  · rw [hact]
    exact ⟨rfl, nofun, nofun⟩
  · exact fun _ => ⟨rfl, rfl⟩
  · exact ⟨hlink 0, nofun⟩
  · rw [hreader]
    exact ⟨nofun, nofun⟩
  · exact ⟨harray.within 0, nofun⟩

theorem covered_idle (chip : Chip) : (idle chip).Covered chip :=
  .of_idle (shaped_idle chip) rfl (fun _ => ⟨nofun, nofun, nofun⟩) rfl (arrayIdle_idle chip) rfl

/-- A reset leaves nothing under way. -/
theorem Shaped.covered_clear {chip : Chip} {p : Pipeline} (h : p.Shaped chip) : p.clear.Covered chip :=
  .of_idle h.clear rfl (HostLink.within_clear p.hostLink) rfl (arrayIdle_clear p) rfl

end Pipeline

namespace Machine

variable {m : Machine}

/-- One cycle: the counter of the activation unit follows its rows. -/
theorem counted_step (h : m.pipeline.Counted m.chip) : m.step.1.pipeline.Counted m.chip := by
  refine ⟨shaped_step h.shaped, ?_, ?_⟩
  · rw [activator_step, sequencer_step]
    exact h.activate.next activate_step fun hset => UInt64.toNat_inj.2 (activate_ready hset)
  · rw [sequencer_step]
    exact h.rests.step

/-- The command that is issued fits if the instruction that is dispatched does. -/
theorem fits_of_issue_step (hfit : ∀ i, m.step.2.dispatched = some i → i.SpanFits m.chip) {c : Command}
    (hc : m.step.1.issue = some c) : c.SpanFits m.chip := by
  rw [Machine.issue, sequencer_step, issue_step] at hc
  obtain ⟨i, hi, hcommand⟩ := Option.bind_eq_some_iff.1 hc
  exact fits_command? hcommand (hfit i hi)

/-- One cycle: every counter runs down with its units, or is set for a command that finds them idle. -/
theorem covered_step (h : m.pipeline.Covered m.chip) (hfit : ∀ i, m.step.2.dispatched = some i → i.SpanFits m.chip) :
    m.step.1.pipeline.Covered m.chip := by
  have hissue := fun c => fits_of_issue_step hfit (c := c)
  refine ⟨counted_step h.toCounted, ?_, ?_, ?_, ?_⟩
  · refine Covers.next HostLink.Within.mono ?_ (counts_host m.chip).step
      (fun hset => UInt64.toNat_inj.2 ((counts_host m.chip).ready hset)) fun n => (counts_host m.chip).fits hissue
    rw [hostLink_step]
    exact HostLink.Within.step h.host _ _ _
  · refine Covers.next TileReader.Within.mono ?_ (counts_weights m.chip).step
      (fun hset => UInt64.toNat_inj.2 ((counts_weights m.chip).ready hset)) fun n => (counts_weights m.chip).fits hissue
    rw [reader_step]
    exact TileReader.Within.step h.weights _
  · exact Covers.next Pipeline.ArrayWithin.mono (arrayWithin_step h.matrix h.shaped) (counts_matrix m.chip).step
      (fun hset => UInt64.toNat_inj.2 ((counts_matrix m.chip).ready hset)) fun n => (counts_matrix m.chip).fits hissue
  · rw [sequencer_step]
    exact cooldown_le_step h.cooldown fun x hx => hissue (.multiply x) hx

/-! ## Reachable machines -/

/-- The machines that ticks, resets and writes from outside lead to from power-on. A tick that fails changes nothing. -/
inductive Reachable (chip : Chip) (program : Program) : Machine → Prop
  | build {m : Machine} (h : Machine.build chip program = .ok m) : Reachable chip program m
  | tick {m : Machine} (h : Reachable chip program m) : Reachable chip program m.ticked
  | reset {m : Machine} (h : Reachable chip program m) : Reachable chip program m.reset
  | poke {m : Machine} (h : Reachable chip program m) (p : Poke) : Reachable chip program (m.poke p)

/-- The machines that are reached while all that is dispatched has a span that fits its counter. -/
inductive FitReachable (chip : Chip) (program : Program) : Machine → Prop
  | build {m : Machine} (h : Machine.build chip program = .ok m) : FitReachable chip program m
  | tick {m : Machine} (h : FitReachable chip program m) (hfit : ∀ i, m.dispatched? = some i → i.SpanFits chip) :
      FitReachable chip program m.ticked
  | reset {m : Machine} (h : FitReachable chip program m) : FitReachable chip program m.reset
  | poke {m : Machine} (h : FitReachable chip program m) (p : Poke) : FitReachable chip program (m.poke p)

variable {chip : Chip} {program : Program}

/-- The chip and the program stay. -/
theorem Reachable.of (h : Reachable chip program m) : m.chip = chip ∧ m.program = program := by
  induction h with
  | build h =>
    obtain ⟨-, rfl⟩ := of_build h
    exact ⟨rfl, rfl⟩
  | @tick m _ ih => rcases m.ticked_eq with ⟨hm, -⟩ | ⟨hm, -⟩ <;> rw [hm] <;> exact ih
  | reset _ ih => exact ih
  | poke _ p ih => cases p <;> exact ih

/-- What is dispatched is an instruction of the program. -/
theorem fits_of_dispatched (hfit : m.program.SpansFit m.chip) {i : Instruction} (hi : m.step.2.dispatched = some i) :
    i.SpanFits m.chip := by
  rw [(Sequencer.of_dispatched ((dispatched_step m).symm.trans hi)).2.1]
  exact hfit.fetch _

/-- A program that fits is dispatched from without a check. -/
theorem Reachable.fit (h : Reachable chip program m) (hfit : program.SpansFit chip) : FitReachable chip program m := by
  induction h with
  | build h => exact .build h
  | @tick m hm ih =>
    refine ih.tick fun i hi => ?_
    obtain ⟨rfl, rfl⟩ := hm.of
    rcases m.ticked_eq with ⟨-, hd⟩ | ⟨-, hd⟩ <;> rw [hd] at hi
    · exact fits_of_dispatched hfit hi
    · cases hi
  | reset _ ih => exact ih.reset
  | poke _ p ih => exact ih.poke p

theorem FitReachable.reachable (h : FitReachable chip program m) : Reachable chip program m := by
  induction h with
  | build h => exact .build h
  | tick _ _ ih => exact ih.tick
  | reset _ ih => exact ih.reset
  | poke _ p ih => exact ih.poke p

/-- Where all that is dispatched fits, the busy counters outlast the units. -/
theorem FitReachable.covered (h : FitReachable chip program m) : m.pipeline.Covered m.chip := by
  induction h with
  | build h =>
    obtain ⟨-, rfl⟩ := of_build h
    exact Pipeline.covered_idle chip
  | @tick m hm hfit ih =>
    rcases m.ticked_eq with ⟨hticked, hd⟩ | ⟨hticked, -⟩ <;> rw [hticked]
    · refine covered_step ih fun i hi => ?_
      rw [hm.reachable.of.1]
      exact hfit i (hd.trans hi)
    · exact ih
  | reset _ ih => exact ih.shaped.covered_clear
  | @poke m _ p ih =>
    rw [pipeline_poke, chip_poke]
    exact ih

end Machine

/-! ## Classes of units -/

/-- The busy counter of a class. -/
def Busy.of (b : Busy) : UnitClass → UInt64
  | .matrix => b.matrix
  | .activate => b.activate
  | .host => b.host
  | .weights => b.weights

/-- The units of a class have no job, and nothing of one is under way in them. -/
def Pipeline.Idle (p : Pipeline) : UnitClass → Prop
  | .matrix => p.ArrayIdle
  | .activate => p.activator.job = none
  | .host => p.hostLink.reading = none ∧ p.hostLink.writing = none ∧ p.hostLink.response.valid = false
  | .weights => p.reader.job = none

/-- With its counter at zero the activation unit has no job. -/
theorem Pipeline.Counted.activator_idle {chip : Chip} {p : Pipeline} (h : p.Counted chip)
    (hk : p.sequencer.busy.activate = 0) : p.activator.job = none := by
  have hact := h.activate
  rw [hk] at hact
  exact hact.idle.1

namespace Pipeline.Covered

variable {chip : Chip} {p : Pipeline} (h : p.Covered chip)
include h

/-- The units of a class whose counter stands at zero are idle. -/
theorem idle {k : UnitClass} (hk : p.sequencer.busy.of k = 0) : p.Idle k := by
  cases k with
  | matrix =>
    have hmatrix := h.matrix
    rw [show p.sequencer.busy.matrix = 0 from hk] at hmatrix
    exact hmatrix.idle.idle h.shaped
  | activate => exact h.activator_idle hk
  | host =>
    have hhost := h.host
    rw [show p.sequencer.busy.host = 0 from hk] at hhost
    exact hhost.idle.idle
  | weights =>
    have hweights := h.weights
    rw [show p.sequencer.busy.weights = 0 from hk] at hweights
    exact hweights.idle.idle

/-- A command whose class stands at zero is an activation of no rows. -/
theorem activate_of_issue {c : Command} (hc : p.sequencer.issue = some c) (hk : p.sequencer.busy.of c.unitClass = 0) :
    ∃ a, c = .activate a ∧ a.length = 0 := by
  have hset : ∀ {given : Option Nat} {ends : Nat → Prop} {busy : UInt64} {n : Nat}, Covers ends given busy.toNat →
      busy = 0 → given = some n → 0 < n → ∃ a, c = .activate a ∧ a.length = 0 := by
    intro given ends busy n hcov hzero hgiven hpos
    subst hzero
    exact absurd (hcov.given_eq_zero hgiven) hpos.ne'
  have hpos : ∀ length : UInt64, 0 < hostSpan length := fun length => Nat.succ_pos _
  cases c with
  | readHost t => exact hset h.host hk (by rw [hc]; rfl) (hpos t.length)
  | writeHost t => exact hset h.host hk (by rw [hc]; rfl) (hpos t.length)
  | placeJump target padAddr => exact hset h.host hk (by rw [hc]; rfl) (hpos 1)
  | readWeights tile =>
    refine hset h.weights hk (by rw [hc]; rfl) (?_ : 0 < chip.weightSpan)
    simp [Chip.weightSpan, queueDepth]
  | multiply x =>
    refine hset h.matrix hk (by rw [hc]; rfl) (?_ : 0 < chip.matrixSpan x.length)
    simp [Chip.matrixSpan, drainCycles]
  | activate a =>
    have hact := h.activate
    rw [show p.sequencer.busy.activate = 0 from hk, hc] at hact
    exact ⟨a, rfl, hact.idle.2 a rfl⟩

/-- A command that is issued finds its units idle. -/
theorem idle_of_issue {c : Command} (hc : p.sequencer.issue = some c) : p.Idle c.unitClass := by
  cases c with
  | readHost t => exact (h.host.fresh _ (by rw [hc]; rfl)).2.idle
  | writeHost t => exact (h.host.fresh _ (by rw [hc]; rfl)).2.idle
  | placeJump target padAddr => exact (h.host.fresh _ (by rw [hc]; rfl)).2.idle
  | readWeights tile => exact (h.weights.fresh chip.weightSpan (by rw [hc]; rfl)).2.idle
  | multiply x => exact (h.matrix.fresh (chip.matrixSpan x.length) (by rw [hc]; rfl)).2.idle h.shaped
  | activate a => exact h.activate.alone (by rw [hc]; rfl)

end Pipeline.Covered

/-! ## Nothing left to be written -/

namespace Machine

variable {m : Machine}

/-- With its counter at zero the activation unit shows nothing. -/
theorem activated_of_idle (h : m.pipeline.Counted m.chip) (hb : m.busy.activate = 0) : m.activated = {} := by
  have hpaced := h.activate
  rw [show m.pipeline.sequencer.busy.activate = 0 from hb] at hpaced
  have hnone : m.pipeline.activator.job? (m.issue.bind (·.activation?)) = none :=
    Activator.rowsLeft_eq_zero_iff.1 hpaced.rows.symm
  rw [activated, Activator.step_eq, hnone]
  rfl

/-- With its counter at zero the host link moves nothing. -/
theorem transferred_of_idle (h : m.pipeline.Covered m.chip) (hb : m.busy.host = 0) :
    m.transferred.padWrite = none ∧ m.transferred.hostWrite = none := by
  obtain ⟨-, hwriting, hresponse⟩ := h.idle (k := .host) hb
  have hquiet : ∀ c, m.issue = some c → HostLink.takes c = false := by
    intro c hc
    by_contra htakes
    obtain ⟨a, rfl, -⟩ := h.activate_of_issue hc (by cases c <;> first | exact hb | exact absurd rfl htakes)
    exact htakes rfl
  constructor
  · change m.pipeline.hostLink.response.get? = none
    rw [Wire.get?, hresponse]
    rfl
  · change (m.pipeline.hostLink.writing? m.issue).map _ = none
    rw [HostLink.writing?_of_quiet _ hquiet, hwriting]
    rfl

/-- With every counter at zero a cycle writes nothing. -/
theorem memories_of_idle (h : m.pipeline.Covered m.chip) (hb : m.busy = {}) :
    m.step.1.memories = m.memories := by
  have hzero : ∀ k, m.busy.of k = 0 := by
    intro k
    rw [hb]
    cases k <;> rfl
  have hact := activated_of_idle h.toCounted (hzero .activate)
  obtain ⟨hpad, hhost⟩ := transferred_of_idle h (hzero .host)
  have hacc := acc_of_arrayIdle (h.idle (k := .matrix) (hzero .matrix)) h.shaped
  calc m.step.1.memories
      = ⟨m.step.1.memories.pad, m.step.1.memories.host, m.step.1.memories.acc, m.memories.weights⟩ := rfl
    _ = m.memories := by rw [pad_step, host_step, hacc, hact, hpad, hhost]; rfl

/-- With the counters of the array and of the weights at zero no hazard shows. -/
theorem hazards_of_idle (h : m.pipeline.Covered m.chip) (hm : m.busy.matrix = 0) (hw : m.busy.weights = 0) :
    m.step.2.hazards = [] := by
  have harray : m.pipeline.ArrayIdle := h.idle (k := .matrix) hm
  have hjob : m.pipeline.reader.job = none := h.idle (k := .weights) hw
  have hlane : (m.skewed.lanes.getD 0 {}).valid = false := by
    rw [skewed, SkewLines.step, List.getD_eq_getElem?_getD, List.getElem?_mapIdx]
    cases hline : m.pipeline.skew.lanes[0]? with
    | none => rfl
    | some line =>
      have hin : InTime (·.valid) 1 line.regs 0 := .of_false (harray.lanes line (List.mem_of_getElem? hline))
      rw [← Bool.not_eq_true]
      intro hv
      have := hin.output (h.shaped.lanes 0 line hline).2 hv
      omega
  have hhazard : m.product.hazard = none := by
    change m.pipeline.mesh.hazard? m.skewed.lanes = none
    rw [Mesh.hazard?, Mesh.switching, hlane]
    rfl
  have hburst : (m.pipeline.reader.step m.chip (m.issue.bind (·.tile?)) m.memories.weights).2 = none := by
    rw [TileReader.step, hjob]
    rfl
  rw [hazards_step, hhazard, hburst]
  rfl

/-- A `SYNC` or a `HLT` waits for every counter. -/
theorem busy_of_dispatched {i : Instruction} (hi : m.step.2.dispatched = some i)
    (ho : i.opcode = .sync ∨ i.opcode = .halt) : m.busy = {} := by
  have hr := (of_dispatched hi).2.2.1
  unfold ready at hr
  refine Busy.eq_idle (Busy.idle_iff.1 ?_)
  rcases ho with ho | ho <;> simp only [ho, Bool.and_eq_true] at hr <;> exact hr.2

/-- The machine after `n` cycles, whatever hazards they show. -/
def after (m : Machine) : Nat → Machine
  | 0 => m
  | n + 1 => (m.after n).step.1

/-- A row that is read from the host, when the barrier behind it is dispatched. -/
def fetched : Machine :=
  ((powerOn { size := 4, padRows := 2, accRows := 2, hostRows := 2, tiles := 1 }
    ⟨[.readHost 0 1 1, .sync, .halt]⟩).poke (.host 0 [1, 2, 3, 4])).ticked.ticked.ticked

end Machine

end Systolic
