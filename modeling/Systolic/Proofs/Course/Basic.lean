import Systolic.Proofs.Mesh.Wavefront
import Systolic.Proofs.Queue.Contents
import Systolic.Proofs.Storage.Shape

/-!
# Courses

A course is a chip with a program from power-on, cycle after cycle, with anything written into the memories from outside
between two cycles. `machine` goes through it under the chip's hazard policy; `free` does not stop for hazards, so that
the array and the queue in it are plain runs of these units (`mesh_free`, `queue_free`). Until a hazard stops a tick the
two are the same (`Unbroken.machine_eq`).
-/

namespace Systolic

/-- What is written into a memory from outside. -/
inductive Poke
  | host (addr : UInt64) (row : Row)
  | pad (addr : UInt64) (row : Row)
  | tile (addr : UInt64) (cells : Row)

/-- The write goes into the weight store. -/
def Poke.isTile : Poke → Bool
  | tile _ _ => true
  | _ => false

namespace Machine

def poke (m : Machine) : Poke → Machine
  | .host addr row => m.writeHost addr row
  | .pad addr row => m.writePad addr row
  | .tile addr cells => m.storeTile addr cells

/-- Several writes, in order. -/
def pokeAll (m : Machine) (ps : List Poke) : Machine := ps.foldl poke m

variable (m : Machine)

/-- The machine after a tick; a tick that fails leaves it as it is. -/
def ticked : Machine :=
  match m.tick with
  | .ok (next, _) => next
  | .error _ => m

/-- The hazards that a tick reports. -/
def raised : List Hazard :=
  match m.tick with
  | .ok (_, events) => events.hazards
  | .error (.hazard _ h) => [h]
  | .error (.cycleLimit _) => []

/-- The instruction that a tick dispatches. -/
def dispatched? : Option Instruction :=
  match m.tick with
  | .ok (_, events) => events.dispatched
  | .error _ => none

/-! ## One tick and one step -/

theorem tick_of_quiet {m : Machine} (h : m.step.2.hazards = []) : m.tick = .ok m.step := by
  simp only [tick, h]
  cases m.chip.policy <;> rfl

/-- A run goes on with the machine after a cycle without hazards. -/
theorem runFor_of_quiet {m : Machine} (hh : m.halted = false) (hz : m.step.2.hazards = []) (limit n : Nat) :
    runFor limit (n + 1) m = runFor limit n m.step.1 := by
  rw [runFor, hh, tick_of_quiet hz]
  rfl

/-- A run of a halted machine is over. -/
theorem runFor_of_halted {m : Machine} (hh : m.halted = true) (limit n : Nat) :
    runFor limit n m = (m, .ok m.summary) := by
  cases n <;> rw [runFor, if_pos hh]

theorem raised_eq_nil_iff {m : Machine} : m.raised = [] ↔ m.step.2.hazards = [] := by
  unfold raised tick
  cases hh : m.step.2.hazards with
  | nil => simp [hh]
  | cons a as => cases m.chip.policy <;> simp [hh]

theorem ticked_of_quiet {m : Machine} (h : m.raised = []) : m.ticked = m.step.1 := by
  unfold ticked
  rw [tick_of_quiet (raised_eq_nil_iff.1 h)]

/-- A tick is a cycle, or it fails with a hazard under `fail`. -/
theorem tick_eq (m : Machine) : m.tick = .ok m.step ∨
    m.chip.policy = .fail ∧ ∃ z, m.tick = .error (.hazard m.cycle z) := by
  unfold tick
  generalize m.step = s
  obtain ⟨next, events⟩ := s
  dsimp only
  cases m.chip.policy <;> cases events.hazards <;>
    first | exact Or.inl rfl | exact Or.inr ⟨rfl, _, rfl⟩

/-- A tick that succeeds is a cycle. -/
theorem of_tick_isOk {m : Machine} (h : m.tick.isOk = true) :
    m.ticked = m.step.1 ∧ m.dispatched? = m.step.2.dispatched := by
  unfold ticked dispatched?
  rcases m.tick_eq with htick | ⟨-, z, htick⟩
  · rw [htick]
    exact ⟨rfl, rfl⟩
  · rw [htick] at h
    cases h

/-! ## What pokes leave alone -/

theorem pipeline_poke (p : Poke) : (m.poke p).pipeline = m.pipeline := by cases p <;> rfl

theorem pipeline_pokeAll (ps : List Poke) : (m.pokeAll ps).pipeline = m.pipeline := by
  induction ps generalizing m with
  | nil => rfl
  | cons p ps ih => exact (ih (m.poke p)).trans (m.pipeline_poke p)

theorem chip_pokeAll (ps : List Poke) : (m.pokeAll ps).chip = m.chip := by
  induction ps generalizing m with
  | nil => rfl
  | cons p ps ih => exact (ih (m.poke p)).trans (by cases p <;> rfl)

theorem program_pokeAll (ps : List Poke) : (m.pokeAll ps).program = m.program := by
  induction ps generalizing m with
  | nil => rfl
  | cons p ps ih => exact (ih (m.poke p)).trans (by cases p <;> rfl)

theorem acc_pokeAll (ps : List Poke) : (m.pokeAll ps).memories.acc = m.memories.acc := by
  induction ps generalizing m with
  | nil => rfl
  | cons p ps ih => exact (ih (m.poke p)).trans (by cases p <;> rfl)

theorem weights_pokeAll (ps : List Poke) (h : ∀ p ∈ ps, p.isTile = false) :
    (m.pokeAll ps).memories.weights = m.memories.weights := by
  induction ps generalizing m with
  | nil => rfl
  | cons p ps ih =>
    refine (ih (m.poke p) fun q hq => h q (List.mem_cons_of_mem _ hq)).trans ?_
    have hp := h p List.mem_cons_self
    cases p <;> first | rfl | cases hp

theorem fits_pokeAll {m : Machine} (h : m.memories.Fits m.chip) (ps : List Poke) :
    (m.pokeAll ps).memories.Fits m.chip := by
  induction ps generalizing m with
  | nil => exact h
  | cons p ps ih =>
    have hc : (m.poke p).chip = m.chip := by cases p <;> rfl
    have hp : (m.poke p).memories.Fits (m.poke p).chip := by
      cases p with
      | host addr row => exact ⟨h.acc, h.weights⟩
      | pad addr row => exact ⟨h.acc, h.weights⟩
      | tile addr cells => exact ⟨h.acc, h.weights.store addr _⟩
    rw [← hc]
    exact ih hp

end Machine

/-- A chip with a program and its memories, and what is written from outside before every cycle. -/
structure Course where
  chip : Chip
  valid : chip.Valid
  program : Program
  start : Memories
  fits : start.Fits chip
  pokes : Nat → List Poke

namespace Course

variable (C : Course)

/-- The machine at power-on. -/
def first : Machine := { Machine.powerOn C.chip C.program with memories := C.start }

/-- The machine in cycle `t`. -/
def machine : Nat → Machine
  | 0 => C.first.pokeAll (C.pokes 0)
  | t + 1 => (machine t).ticked.pokeAll (C.pokes (t + 1))

/-- The machine in cycle `t`, if no hazard ever stops it. -/
def free : Nat → Machine
  | 0 => C.first.pokeAll (C.pokes 0)
  | t + 1 => (free t).step.1.pokeAll (C.pokes (t + 1))

/-- No hazard has been raised before cycle `t`. -/
def QuietBefore (t : Nat) : Prop := ∀ u < t, (C.machine u).raised = []

/-- No tick before tick `t` has failed. -/
def Unbroken (t : Nat) : Prop := ∀ u < t, (C.machine u).tick.isOk = true

/-! ## The units of a course -/

def memories (t : Nat) : Memories := (C.free t).memories

def sequencer (t : Nat) : Sequencer := (C.free t).pipeline.sequencer

/-- The command that the units see in cycle `t`. -/
def issue (t : Nat) : Option Command := (C.sequencer t).issue

/-- The instruction that is dispatched in cycle `t`. -/
def dispatched (t : Nat) : Option Instruction := (C.free t).step.2.dispatched

/-- The row that enters the skew lines in cycle `t`. -/
def row? (t : Nat) : Option MatrixRow :=
  ((C.free t).pipeline.source.step ((C.issue t).bind (·.multiplication?)) (C.memories t).pad).2

/-- The array with its skew lines. -/
def array : Mesh.Run := .behindSkew C.chip C.row? fun t => (C.free t).pipeline.queue.front

/-- The tile reader with the queue. -/
def supply : Supply :=
  { chip := C.chip
    weights := fun t => (C.memories t).weights
    request := fun t => (C.issue t).bind (·.tile?)
    advance := C.array.takes }

variable {C}

theorem QuietBefore.mono {s t : Nat} (h : C.QuietBefore t) (hst : s ≤ t) : C.QuietBefore s := fun u hu => h u (by omega)

theorem Unbroken.mono {s t : Nat} (h : C.Unbroken t) (hst : s ≤ t) : C.Unbroken s := fun u hu => h u (by omega)

/-- Until a tick fails, the policy makes no difference. -/
theorem Unbroken.machine_eq {t : Nat} (h : C.Unbroken t) : C.machine t = C.free t := by
  induction t with
  | zero => rfl
  | succ t ih => rw [machine, free, (Machine.of_tick_isOk (h t (Nat.lt_succ_self t))).1, ih (h.mono (Nat.le_succ t))]

/-- A tick that raises no hazard does not fail. -/
theorem QuietBefore.unbroken {t : Nat} (h : C.QuietBefore t) : C.Unbroken t := by
  intro u hu
  rw [Machine.tick_of_quiet (Machine.raised_eq_nil_iff.1 (h u hu))]
  rfl

theorem machine_eq_free {t : Nat} (h : C.QuietBefore t) : C.machine t = C.free t := h.unbroken.machine_eq

theorem chip_free (t : Nat) : (C.free t).chip = C.chip := by
  induction t with
  | zero => exact Machine.chip_pokeAll _ _
  | succ t ih => exact (Machine.chip_pokeAll _ _).trans ih

theorem program_free (t : Nat) : (C.free t).program = C.program := by
  induction t with
  | zero => exact Machine.program_pokeAll _ _
  | succ t ih => exact (Machine.program_pokeAll _ _).trans ih

theorem fits_free (t : Nat) : (C.memories t).Fits C.chip := by
  induction t with
  | zero => exact Machine.fits_pokeAll (m := C.first) C.fits _
  | succ t ih =>
    rw [← chip_free t] at ih ⊢
    exact Machine.fits_pokeAll (m := (C.free t).step.1) ⟨ih.acc.apply _, ih.weights⟩ _

/-- The weight store stays as it is unless it is written from outside. -/
theorem weights_free (h : ∀ t, ∀ p ∈ C.pokes (t + 1), p.isTile = false) (t : Nat) :
    (C.memories t).weights = (C.memories 0).weights := by
  induction t with
  | zero => rfl
  | succ t ih => exact (Machine.weights_pokeAll _ _ (h t)).trans ih

theorem pipeline_free_zero : (C.free 0).pipeline = .idle C.chip := Machine.pipeline_pokeAll _ _

theorem pipeline_free_succ (t : Nat) : (C.free (t + 1)).pipeline = (C.free t).step.1.pipeline :=
  Machine.pipeline_pokeAll _ _

/-- The skew lines and the array are those of `array`. -/
theorem skew_mesh_free (t : Nat) : (C.free t).pipeline.skew = SkewLines.trace C.chip.size C.row? t ∧
    (C.free t).pipeline.mesh = C.array.mesh t := by
  induction t with
  | zero =>
    rw [pipeline_free_zero]
    exact ⟨rfl, rfl⟩
  | succ t ih =>
    obtain ⟨hs, hm⟩ := ih
    have hstep : (C.free t).step.1.pipeline.skew = ((C.free t).pipeline.skew.step (C.row? t)).1 ∧
        (C.free t).step.1.pipeline.mesh = ((C.free t).pipeline.mesh.step (C.free t).chip
          ((C.free t).pipeline.skew.step (C.row? t)).2.lanes (C.free t).pipeline.queue.front).1 := ⟨rfl, rfl⟩
    rw [pipeline_free_succ, hstep.1, hstep.2, hs, hm, chip_free]
    exact ⟨rfl, rfl⟩

theorem mesh_free (t : Nat) : (C.free t).pipeline.mesh = C.array.mesh t := (skew_mesh_free t).2

/-- What the array shows to the rest of the machine. -/
theorem output_array (t : Nat) : C.array.output t = ((C.free t).pipeline.mesh.step (C.free t).chip
    ((C.free t).pipeline.skew.step (C.row? t)).2.lanes (C.free t).pipeline.queue.front).2 := by
  rw [(skew_mesh_free t).1, mesh_free, chip_free]
  rfl

/-- The reader and the queue are those of `supply`. -/
theorem reader_queue_free (t : Nat) : (C.free t).pipeline.reader = C.supply.reader t ∧
    (C.free t).pipeline.queue = C.supply.queue t := by
  induction t with
  | zero =>
    rw [pipeline_free_zero]
    exact ⟨rfl, rfl⟩
  | succ t ih =>
    obtain ⟨hr, hq⟩ := ih
    have hstep : (C.free t).step.1.pipeline.reader = ((C.free t).pipeline.reader.step (C.free t).chip
          (C.supply.request t) (C.memories t).weights).1 ∧
        (C.free t).step.1.pipeline.queue = ((C.free t).pipeline.queue.step (C.free t).chip.size
          ((C.free t).pipeline.reader.step (C.free t).chip (C.supply.request t) (C.memories t).weights).2
          ((C.free t).pipeline.mesh.step (C.free t).chip ((C.free t).pipeline.skew.step (C.row? t)).2.lanes
            (C.free t).pipeline.queue.front).2.advance).1 := ⟨rfl, rfl⟩
    rw [pipeline_free_succ, hstep.1, hstep.2, ← output_array, hr, hq, chip_free]
    exact ⟨rfl, rfl⟩

theorem queue_free (t : Nat) : (C.free t).pipeline.queue = C.supply.queue t := (reader_queue_free t).2

theorem front_array (t : Nat) : C.array.front t = (C.supply.queue t).front := by
  rw [← queue_free]
  rfl

/-- The hazards of a cycle are those of the array and of the queue. -/
theorem hazards_free (t : Nat) : (C.free t).step.2.hazards =
    (C.array.output t).hazard.toList ++ if C.supply.overflows t then [.queueOverflow] else [] := by
  have hstep : (C.free t).step.2.hazards =
      (((C.free t).pipeline.mesh.step (C.free t).chip ((C.free t).pipeline.skew.step (C.row? t)).2.lanes
        (C.free t).pipeline.queue.front).2.hazard).toList ++
      if ((C.free t).pipeline.queue.step (C.free t).chip.size
          ((C.free t).pipeline.reader.step (C.free t).chip (C.supply.request t) (C.memories t).weights).2
          ((C.free t).pipeline.mesh.step (C.free t).chip ((C.free t).pipeline.skew.step (C.row? t)).2.lanes
            (C.free t).pipeline.queue.front).2.advance).2 then [.queueOverflow] else [] := rfl
  rw [hstep, ← output_array, (reader_queue_free t).1, queue_free, chip_free]
  rfl

/-- A cycle raises no hazard exactly when neither the array nor the queue shows one. -/
theorem raised_free_iff {t : Nat} :
    (C.free t).raised = [] ↔ (C.array.output t).hazard = none ∧ C.supply.overflows t = false := by
  rw [Machine.raised_eq_nil_iff, hazards_free]
  cases (C.array.output t).hazard <;> cases C.supply.overflows t <;> simp

theorem QuietBefore.safe {t : Nat} (h : C.QuietBefore t) : C.array.SafeBefore t := by
  intro u hu
  have hu' := h u hu
  rw [machine_eq_free (h.mono (by omega))] at hu'
  exact (raised_free_iff.1 hu').1

theorem QuietBefore.kept {t : Nat} (h : C.QuietBefore t) : C.supply.KeptBefore t := by
  intro u hu
  have hu' := h u hu
  rw [machine_eq_free (h.mono (by omega))] at hu'
  exact (raised_free_iff.1 hu').2

end Course

end Systolic
