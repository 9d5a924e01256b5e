import Systolic.Proofs.Clocked.Countdown
import Systolic.Proofs.Clocked.Spans
import Systolic.Proofs.Course.Basic

/-!
# Dispatch and busy counters

What one cycle of the sequencer can do (`Sequencer.step_of_none`, `Sequencer.of_dispatched`), and what follows for a
course: a command is issued in the cycle after its dispatch (`issue_succ`), and while its class of units is busy no other
command of the class is (`countdown`).
-/

namespace Systolic

namespace Sequencer

variable {chip : Chip} {s : Sequencer} {input : Input}

/-! ## One cycle of the sequencer -/

/-- A cycle that dispatches nothing counts down. -/
theorem step_of_none (h : (s.step chip input).2.dispatched = none) :
    (s.step chip input).1 = { s.countDown input.resolved with pc := input.redirect.getD s.pc } ∧
      (s.halted = false → s.ready (input.program.fetch s.pc) = false) := by
  unfold step at *
  cases hh : s.halted with
  | true => exact ⟨by simp [hh, countDown], nofun⟩
  | false =>
    cases hr : s.ready (input.program.fetch s.pc) with
    | true => simp [hh, hr] at h
    | false => exact ⟨by simp [hh, hr, countDown], fun _ => rfl⟩

/-- A cycle that dispatches an instruction found it at the program counter, and ready. -/
theorem of_dispatched {i : Instruction} (h : (s.step chip input).2.dispatched = some i) :
    s.halted = false ∧ i = input.program.fetch s.pc ∧ s.ready i = true ∧
      (s.step chip input).1 = { dispatch chip input.pad s i (s.countDown input.resolved) with
        pc := input.redirect.getD (if i.opcode = .halt then s.pc else s.pc + 1) } := by
  unfold step at *
  cases hh : s.halted with
  | true => simp [hh] at h
  | false =>
    cases hr : s.ready (input.program.fetch s.pc) with
    | true =>
      obtain rfl : input.program.fetch s.pc = i := by simpa [hh, hr] using h
      exact ⟨rfl, rfl, hr, by simp [hr, dispatch]⟩
    | false => simp [hh, hr] at h

/-- What is ready is dispatched. -/
theorem dispatched_of_ready (hh : s.halted = false) (hr : s.ready (input.program.fetch s.pc) = true) :
    (s.step chip input).2.dispatched = some (input.program.fetch s.pc) := by
  simp [step, hh, hr]

/-- What a command says about the instruction that it was issued for. -/
theorem of_command? {pad : RowStore} {pc : UInt64} {i : Instruction} {c : Command}
    (h : command? chip pad pc i = some c) :
    match c with
    | .readHost T => i.opcode = .readHost ∧ i.has Instruction.convertBit = false ∧ T = transfer chip pad i
    | .placeJump target padAddr =>
      i.opcode = .readHost ∧ i.has Instruction.convertBit = true ∧ target = i.memAddr ∧ padAddr = i.padAddr
    | .writeHost T => i.opcode = .writeHost ∧ T = transfer chip pad i
    | .readWeights tile => i.opcode = .readWeights ∧ tile = i.memAddr
    | .multiply m => i.opcode = .multiply ∧ m = ⟨i.padAddr, i.memAddr, i.length, i.has Instruction.overwriteBit,
        i.has Instruction.switchBit⟩
    | .activate a => i.opcode = .activate ∧ a = ⟨i.memAddr, i.padAddr, i.length, i.activation, pc⟩ := by
  unfold command? at h
  cases hop : i.opcode <;> simp only [hop] at h
  case nop | sync | halt => cases h
  case readHost =>
    split at h <;> cases h
    · exact ⟨rfl, ‹_›, rfl, rfl⟩
    · exact ⟨rfl, Bool.eq_false_iff.2 ‹_›, rfl⟩
  all_goals
    cases h
    exact ⟨rfl, rfl⟩

/-- A command is for the units of its instruction. -/
theorem unitClass?_command? (chip : Chip) (pad : RowStore) (pc : UInt64) (i : Instruction) :
    (command? chip pad pc i).map (·.unitClass) = i.opcode.unitClass? := by
  cases ho : i.opcode <;> simp only [command?, ho] <;> first | rfl | skip
  split <;> rfl

/-- A command takes as long as its instruction says. -/
theorem span_command? {pad : RowStore} {pc : UInt64} {i : Instruction} {c : Command}
    (h : command? chip pad pc i = some c) : c.span chip = i.span chip := by
  have hfor := of_command? h
  have hrows : (transfer chip pad i).length.toNat = if i.has Instruction.switchBit then 1 else i.length.toNat := by
    unfold transfer
    split <;> rfl
  cases c with
  | readHost T =>
    obtain ⟨ho, hplain, rfl⟩ := hfor
    simp [Command.span, hostSpan, Instruction.span, ho, Instruction.rowsMoved, hplain, hrows]
  | placeJump target padAddr =>
    obtain ⟨ho, hconvert, -⟩ := hfor
    simp [Command.span, hostSpan, Instruction.span, ho, Instruction.rowsMoved, hconvert]
  | writeHost T =>
    obtain ⟨ho, rfl⟩ := hfor
    simp [Command.span, hostSpan, Instruction.span, ho, Instruction.rowsMoved, hrows]
  | readWeights tile => simp only [Command.span, Instruction.span, hfor.1]
  | multiply m =>
    obtain ⟨ho, rfl⟩ := hfor
    simp only [Command.span, Instruction.span, ho]
  | activate a =>
    obtain ⟨ho, rfl⟩ := hfor
    simp only [Command.span, Instruction.span, ho]

theorem fits_command? {pad : RowStore} {pc : UInt64} {i : Instruction} {c : Command}
    (h : command? chip pad pc i = some c) (hi : i.SpanFits chip) : c.SpanFits chip := by
  rw [Command.SpanFits, span_command? h]
  exact hi

/-- The command issued at an edge is the one of the instruction dispatched before it. -/
theorem issue_step : (s.step chip input).1.issue =
    (s.step chip input).2.dispatched.bind (command? chip input.pad s.pc) := by
  cases h : (s.step chip input).2.dispatched with
  | none => rw [(step_of_none h).1]; rfl
  | some i => rw [(of_dispatched h).2.2.2]; rfl

/-- The busy counters after an edge follow from the command issued at it. -/
theorem busy_step : (s.step chip input).1.busy =
    ((s.step chip input).1.issue.map (charge chip (s.countDown input.resolved).busy)).getD
      (s.countDown input.resolved).busy := by
  cases h : (s.step chip input).2.dispatched with
  | none => rw [(step_of_none h).1]; rfl
  | some i => rw [(of_dispatched h).2.2.2]; rfl

/-- The busy counter of the class that `command` belongs to. -/
def classBusy (b : Busy) : Command → UInt64
  | .readHost _ | .writeHost _ | .placeJump _ _ => b.host
  | .readWeights _ => b.weights
  | .multiply _ => b.matrix
  | .activate _ => b.activate

/-- A command is issued only when its class is idle and no activation runs. -/
theorem ready_of_issue {c : Command} (h : (s.step chip input).1.issue = some c) :
    s.busy.activate = 0 ∧ classBusy s.busy c = 0 := by
  rw [issue_step] at h
  obtain ⟨i, hi, hc⟩ := Option.bind_eq_some_iff.1 h
  have hr := (of_dispatched hi).2.2.1
  have hfor := of_command? hc
  unfold ready at hr
  cases c <;> simp only [hfor.1, Bool.and_eq_true, beq_iff_eq] at hr
  case readHost | writeHost | placeJump | readWeights => exact hr
  case multiply => exact ⟨hr.1, hr.2.1⟩
  case activate => exact ⟨hr.1, hr.1⟩

/-- A halted sequencer dispatches nothing and stays halted. -/
theorem step_of_halted (h : s.halted = true) :
    (s.step chip input).2.dispatched = none ∧ (s.step chip input).1.halted = true := by
  have hnone : (s.step chip input).2.dispatched = none := by
    cases hd : (s.step chip input).2.dispatched with
    | none => rfl
    | some i => rw [(of_dispatched hd).1] at h; cases h
  refine ⟨hnone, ?_⟩
  rw [(step_of_none hnone).1]
  exact h

/-- Nothing is under way in a halted machine: no command is issued, and no unit is busy. -/
def Rests (s : Sequencer) : Prop := s.halted = true → s.busy = {} ∧ s.issue = none

theorem Rests.step (h : s.Rests) : (s.step chip input).1.Rests := by
  intro hh
  have hidle : s.busy = {} → (s.countDown input.resolved).busy = {} := by
    intro hb
    cases input.resolved <;> simp [countDown, hb, Busy.countDown]
  cases hd : (s.step chip input).2.dispatched with
  | none =>
    rw [(step_of_none hd).1] at hh ⊢
    exact ⟨hidle (h hh).1, rfl⟩
  | some i =>
    obtain ⟨-, -, hr, hs⟩ := of_dispatched hd
    rw [hs] at hh ⊢
    have ho : i.opcode = .halt := of_decide_eq_true hh
    unfold ready at hr
    simp only [ho, Bool.and_eq_true, Busy.idle, beq_iff_eq] at hr
    have hb : s.busy = {} := by
      cases hbusy : s.busy
      simp only [hbusy] at hr
      simp [hr]
    have hissue : command? chip input.pad s.pc i = none := by simp [command?, ho]
    simp only [dispatch, hissue]
    exact ⟨hidle hb, trivial⟩

/-! ## The classes of units -/

/-- How long a command occupies the matrix units. -/
def matrixSet (chip : Chip) (c : Command) : Option Nat := c.multiplication?.map fun m => chip.matrixSpan m.length

/-- How long a command occupies the weight units. -/
def weightsSet (chip : Chip) (c : Command) : Option Nat := c.tile?.map fun _ => chip.weightSpan

/-- How long a command occupies the host link. -/
def hostSet : Command → Option Nat
  | .readHost t | .writeHost t => some (hostSpan t.length)
  | .placeJump _ _ => some (hostSpan 1)
  | _ => none

/-- How long a command holds the next switch back. -/
def cooldownSet (chip : Chip) (c : Command) : Option Nat :=
  (c.multiplication?.filter (·.switch)).map fun _ => chip.size + 1

/-- `counter` is the busy counter of the class of units that `set` gives the spans of. -/
structure Counts (chip : Chip) (set : Command → Option Nat) (counter : Busy → UInt64) : Prop where
  span : ∀ c n, set c = some n → n = c.span chip
  countDown : ∀ s resolved, counter (Sequencer.countDown s resolved).busy = tickDown (counter s.busy)
  charge : ∀ b c, counter (Sequencer.charge chip b c) = ((set c).map UInt64.ofNat).getD (counter b)
  classBusy : ∀ b c, (set c).isSome = true → classBusy b c = counter b

theorem counts_matrix (chip : Chip) : Counts chip (matrixSet chip) (·.matrix) where
  span c n h := by cases c <;> cases h; rfl
  countDown s resolved := by cases resolved <;> rfl
  charge b c := by cases c <;> first | rfl | exact chip.matrixCycles_eq _
  classBusy b c h := by cases c <;> first | rfl | cases h

theorem counts_weights (chip : Chip) : Counts chip (weightsSet chip) (·.weights) where
  span c n h := by cases c <;> cases h; rfl
  countDown s resolved := by cases resolved <;> rfl
  charge b c := by cases c <;> rfl
  classBusy b c h := by cases c <;> first | rfl | cases h

theorem counts_host (chip : Chip) : Counts chip hostSet (·.host) where
  span c n h := by cases c <;> cases h <;> rfl
  countDown s resolved := by cases resolved <;> rfl
  charge b c := by cases c <;> rfl
  classBusy b c h := by cases c <;> first | rfl | cases h

/-- A busy counter is set by the commands of its class, to what a word keeps of the span, and goes down otherwise. -/
theorem Counts.step {set : Command → Option Nat} {counter : Busy → UInt64} (h : Counts chip set counter) :
    (counter (s.step chip input).1.busy).toNat =
      (((s.step chip input).1.issue.bind set).map (· % 2 ^ 64)).getD ((counter s.busy).toNat - 1) := by
  have hwait : (counter (s.countDown input.resolved).busy).toNat = (counter s.busy).toNat - 1 := by
    rw [h.countDown, toNat_tickDown]
  rw [busy_step]
  cases (s.step chip input).1.issue with
  | none => exact hwait
  | some c =>
    rw [Option.map_some, Option.getD_some, Option.bind_some, h.charge]
    cases set c with
    | none => exact hwait
    | some n => exact UInt64.toNat_ofNat'

/-- A counter is set to a span that fits it if the command does. -/
theorem Counts.fits {set : Command → Option Nat} {counter : Busy → UInt64} (h : Counts chip set counter)
    {issue : Option Command} (hfit : ∀ c, issue = some c → c.SpanFits chip) {n : Nat} (hn : issue.bind set = some n) :
    n < 2 ^ 64 := by
  obtain ⟨c, hc, hset⟩ := Option.bind_eq_some_iff.1 hn
  rw [h.span c n hset]
  exact hfit c hc

/-- A command that sets a counter is issued only when the counter stands at zero. -/
theorem Counts.ready {set : Command → Option Nat} {counter : Busy → UInt64} (h : Counts chip set counter)
    (hset : ((s.step chip input).1.issue.bind set).isSome = true) : counter s.busy = 0 := by
  obtain ⟨n, hn⟩ := Option.isSome_iff_exists.1 hset
  obtain ⟨c, hi, hc⟩ := Option.bind_eq_some_iff.1 hn
  rw [← h.classBusy _ c (by rw [hc]; rfl)]
  exact (ready_of_issue hi).2

/-- The cooldown is set by the multiplications with a switch, and goes down otherwise. -/
theorem cooldown_step : (s.step chip input).1.cooldown.toNat =
    (((s.step chip input).1.issue.bind (cooldownSet chip)).map (· % 2 ^ 64)).getD (s.cooldown.toNat - 1) := by
  rw [issue_step]
  cases hd : (s.step chip input).2.dispatched with
  | none =>
    rw [(step_of_none hd).1]
    exact toNat_tickDown _
  | some i =>
    rw [(of_dispatched hd).2.2.2, Option.bind_some]
    by_cases hi : i.opcode = .multiply ∧ i.has Instruction.switchBit = true
    · have hcommand : (command? chip input.pad s.pc i).bind (cooldownSet chip) = some (chip.size + 1) := by
        simp [command?, hi, cooldownSet, Command.multiplication?, Option.filter]
      rw [hcommand]
      simp [dispatch, hi, Chip.switchCycles]
    · have hcommand : (command? chip input.pad s.pc i).bind (cooldownSet chip) = none := by
        cases hop : i.opcode <;> simp only [command?, hop] <;>
          first | rfl | (split <;> rfl) | simp_all [cooldownSet, Command.multiplication?, Option.filter]
      rw [hcommand]
      simp only [dispatch, if_neg hi]
      exact toNat_tickDown _

/-- A multiplication with a switch is issued only when the cooldown is over. -/
theorem cooldown_ready (hset : ((s.step chip input).1.issue.bind (cooldownSet chip)).isSome = true) :
    s.cooldown = 0 := by
  rw [issue_step] at hset
  obtain ⟨n, hn⟩ := Option.isSome_iff_exists.1 hset
  obtain ⟨c, hi, hc⟩ := Option.bind_eq_some_iff.1 hn
  obtain ⟨i, hi, hcommand⟩ := Option.bind_eq_some_iff.1 hi
  have hr := (of_dispatched hi).2.2.1
  have hfor := of_command? hcommand
  cases c with
  | multiply m =>
    obtain ⟨hop, rfl⟩ := hfor
    have hswitch : i.has Instruction.switchBit = true := by
      simp only [cooldownSet, Command.multiplication?, Option.filter] at hc
      split at hc
      · assumption
      · cases hc
    unfold ready at hr
    simp only [hop, hswitch, Bool.not_true, Bool.false_or, Bool.and_eq_true, beq_iff_eq] at hr
    exact hr.2.2
  | _ => cases hc

end Sequencer

namespace Course

open Sequencer

variable (C : Course)

/-- What the activation unit shows in cycle `t`. -/
def act (t : Nat) : Activator.Output :=
  ((C.free t).pipeline.activator.step C.chip ((C.issue t).bind (·.activation?)) (C.memories t).acc).2

/-- What the sequencer sees in cycle `t`. -/
def sees (t : Nat) : Sequencer.Input :=
  { program := C.program
    pad := (C.memories t).pad
    redirect := (C.act t).redirect
    resolved := (C.act t).resolved }

/-- The span of every multiplication dispatched before cycle `t` fits its counter. -/
def MatrixFit (t : Nat) : Prop :=
  ∀ d < t, ∀ i, C.dispatched d = some i → i.opcode = .multiply → C.chip.matrixSpan i.length < 2 ^ 64

variable {C}

theorem sequencer_zero : C.sequencer 0 = {} := by
  rw [sequencer, pipeline_free_zero]
  rfl

theorem sequencer_succ (t : Nat) : C.sequencer (t + 1) = ((C.sequencer t).step C.chip (C.sees t)).1 := by
  have h : (C.free t).step.1.pipeline.sequencer = ((C.sequencer t).step (C.free t).chip
      { program := (C.free t).program, pad := (C.memories t).pad
        redirect := ((C.free t).pipeline.activator.step (C.free t).chip ((C.issue t).bind (·.activation?))
          (C.memories t).acc).2.redirect
        resolved := ((C.free t).pipeline.activator.step (C.free t).chip ((C.issue t).bind (·.activation?))
          (C.memories t).acc).2.resolved }).1 := rfl
  rw [sequencer, pipeline_free_succ, h, chip_free, program_free]
  rfl

theorem dispatched_eq (t : Nat) : C.dispatched t = ((C.sequencer t).step C.chip (C.sees t)).2.dispatched := by
  have h : C.dispatched t = ((C.sequencer t).step (C.free t).chip
      { program := (C.free t).program, pad := (C.memories t).pad
        redirect := ((C.free t).pipeline.activator.step (C.free t).chip ((C.issue t).bind (·.activation?))
          (C.memories t).acc).2.redirect
        resolved := ((C.free t).pipeline.activator.step (C.free t).chip ((C.issue t).bind (·.activation?))
          (C.memories t).acc).2.resolved }).2.dispatched := rfl
  rw [h, chip_free, program_free]
  rfl

theorem issue_zero : C.issue 0 = none := by
  rw [issue, sequencer_zero]

/-- A command reaches its unit in the cycle after its dispatch. -/
theorem issue_succ (t : Nat) : C.issue (t + 1) =
    (C.dispatched t).bind (command? C.chip (C.memories t).pad (C.sequencer t).pc) := by
  rw [issue, sequencer_succ, issue_step, dispatched_eq]
  rfl

theorem issue_of_dispatched {t : Nat} {i : Instruction} (h : C.dispatched t = some i) :
    C.issue (t + 1) = command? C.chip (C.memories t).pad (C.sequencer t).pc i := by
  rw [issue_succ, h]
  rfl

/-- Every command was dispatched in the cycle before. -/
theorem exists_dispatched {u : Nat} {c : Command} (h : C.issue u = some c) : ∃ d i, u = d + 1 ∧
    C.dispatched d = some i ∧ command? C.chip (C.memories d).pad (C.sequencer d).pc i = some c := by
  cases u with
  | zero =>
    rw [issue_zero] at h
    cases h
  | succ d =>
    rw [issue_succ] at h
    obtain ⟨i, hi, hc⟩ := Option.bind_eq_some_iff.1 h
    exact ⟨d, i, rfl, hi, hc⟩

theorem MatrixFit.mono {s t : Nat} (h : C.MatrixFit t) (hst : s ≤ t) : C.MatrixFit s :=
  fun d hd => h d (Nat.lt_of_lt_of_le hd hst)

/-- What is dispatched is an instruction of the program. -/
theorem fits_dispatched (h : C.program.SpansFit C.chip) {t : Nat} {i : Instruction} (hd : C.dispatched t = some i) :
    i.SpanFits C.chip := by
  rw [dispatched_eq] at hd
  rw [(of_dispatched hd).2.1]
  exact h.fetch _

theorem matrixFit (h : C.program.SpansFit C.chip) (t : Nat) : C.MatrixFit t := by
  intro d _ i hd hop
  exact (fits_dispatched h hd).matrix hop

/-! ## Busy classes run down -/

theorem countdown {set : Command → Option Nat} {counter : Busy → UInt64} (hc : Counts C.chip set counter) :
    Countdown (fun t => (C.issue t).bind set) (fun t => (counter (C.sequencer t).busy).toNat) := by
  refine ⟨by simp only [issue_zero]; rfl, fun t => ?_, fun t h => ?_⟩
  · simp only [issue, sequencer_succ]
    exact hc.step
  · rw [issue, sequencer_succ] at h
    exact UInt64.toNat_inj.2 (hc.ready h)

/-- The cooldown after a switch runs down in the same way. -/
theorem cooldown_countdown :
    Countdown (fun t => (C.issue t).bind (cooldownSet C.chip)) (fun t => (C.sequencer t).cooldown.toNat) := by
  refine ⟨by simp only [issue_zero]; rfl, fun t => ?_, fun t h => ?_⟩
  · simp only [issue, sequencer_succ]
    exact cooldown_step
  · rw [issue, sequencer_succ] at h
    exact UInt64.toNat_inj.2 (cooldown_ready h)

end Course

end Systolic
