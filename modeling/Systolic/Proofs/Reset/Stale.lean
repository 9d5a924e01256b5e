import Systolic.Proofs.Policy.InPlace

/-!
# Values that do not count

A wire that is cleared keeps its value on the line. `Machine.scrub` takes such values off the wires of a machine: the
response and the acknowledgement of the host link, and the hops of the accumulators' control. Two machines are alike if
they differ in nothing else (`Machine.Alike`). Cycles, runs, resets and writes from outside keep them alike and answer the
same (`Alike.step`, `Alike.perform`), so values that do not count never show (`Alike.observe`).
-/

namespace Systolic

/-! ## Wires -/

namespace Wire

variable {α : Type} [Inhabited α]

/-- The wire without a value that does not count. -/
def scrub (w : Wire α) : Wire α := ofOption w.get?

@[simp] theorem get?_scrub (w : Wire α) : w.scrub.get? = w.get? := get?_ofOption _

@[simp] theorem scrub_scrub (w : Wire α) : w.scrub.scrub = w.scrub := by
  rw [scrub, get?_scrub, scrub]

end Wire

/-! ## The two units whose wires keep values -/

namespace HostLink

variable (link : HostLink) (chip : Chip) (issue : Option Command) (pad host : RowStore)

def scrub : HostLink := { link with response := link.response.scrub, ack := link.ack.scrub }

/-- What the link moves does not depend on values that do not count. -/
theorem output_scrub : (link.scrub.step chip issue pad host).2 = (link.step chip issue pad host).2 := by
  simp only [step, scrub, Wire.get?_scrub]
  rfl

theorem step_scrub : (link.scrub.step chip issue pad host).1.scrub = (link.step chip issue pad host).1.scrub := by
  have hresponse : ∀ r : Option RowStore.Write,
      ((r.map Wire.drive).getD link.response.scrub.clear).scrub = ((r.map Wire.drive).getD link.response.clear).scrub := by
    intro r
    cases r <;> rfl
  have hack : ∀ j : Option Job, ((j.map fun j => Wire.drive j.hostAddr).getD link.ack.scrub.clear).scrub =
      ((j.map fun j => Wire.drive j.hostAddr).getD link.ack.clear).scrub := by
    intro j
    cases j <;> rfl
  simp only [step, scrub, mk.injEq]
  exact ⟨rfl, rfl, hresponse _, hack _⟩

end HostLink

namespace ControlChain

variable (chain : ControlChain) (accWidth : Nat) (control : Wire AccControl) (sums : Row) (store : AccStore)

def scrub : ControlChain := ⟨chain.hops.map .scrub⟩

/-- What a column acts on does not depend on values that do not count. -/
theorem at?_scrub (c : Nat) : chain.scrub.at? control c = chain.at? control c := by
  cases c with
  | zero => rfl
  | succ c =>
    simp only [at?, scrub, List.getElem?_cons_succ, List.getElem?_map]
    cases chain.hops[c]? with
    | none => rfl
    | some w => simp

theorem output_scrub : (chain.scrub.step accWidth control sums store).2 =
    (chain.step accWidth control sums store).2 := by
  simp only [step, at?_scrub]

theorem step_scrub : (chain.scrub.step accWidth control sums store).1.scrub =
    (chain.step accWidth control sums store).1.scrub := by
  have hhops : (chain.hops.map Wire.scrub).map Wire.scrub = chain.hops.map Wire.scrub := by
    rw [List.map_map]
    apply List.map_congr_left
    simp
  simp only [step, scrub, List.map_dropLast, List.map_cons, hhops]

theorem clear_scrub : chain.scrub.clear.scrub = chain.clear.scrub := by
  simp only [clear, scrub, List.map_map]
  rfl

end ControlChain

/-! ## The machine -/

def Pipeline.scrub (p : Pipeline) : Pipeline := { p with hostLink := p.hostLink.scrub, chain := p.chain.scrub }

namespace Machine

/-- The machine without the values that do not count. -/
def scrub (m : Machine) : Machine := { m with pipeline := m.pipeline.scrub }

/-- The machines differ at most in values that do not count. -/
def Alike (m m' : Machine) : Prop := m.scrub = m'.scrub

variable (m : Machine)

theorem transferred_scrub : m.scrub.transferred = m.transferred :=
  m.pipeline.hostLink.output_scrub m.chip m.issue m.memories.pad m.memories.host

theorem committed_scrub : m.scrub.committed = m.committed :=
  m.pipeline.chain.output_scrub m.chip.accWidth m.skewed.control m.product.sums m.memories.acc

/-- A cycle reports the same. -/
theorem events_scrub : m.scrub.step.2 = m.step.2 := by
  calc m.scrub.step.2 = { m.step.2 with multiplied := m.scrub.committed.done } := rfl
    _ = m.step.2 := by rw [committed_scrub]; rfl

/-- A cycle writes the same. -/
theorem memories_scrub : m.scrub.step.1.memories = m.step.1.memories := by
  calc m.scrub.step.1.memories
      = { m.step.1.memories with
          pad := (m.memories.pad.commit m.activated.write).commit m.scrub.transferred.padWrite
          host := m.memories.host.commit m.scrub.transferred.hostWrite
          acc := m.memories.acc.apply m.scrub.committed.writes } := rfl
    _ = m.step.1.memories := by rw [transferred_scrub, committed_scrub]; rfl

/-- A cycle leaves the same registers, up to values that do not count. -/
theorem pipeline_scrub : m.scrub.step.1.pipeline.scrub = m.step.1.pipeline.scrub := by
  have hlink := m.pipeline.hostLink.step_scrub m.chip m.issue m.memories.pad m.memories.host
  have hchain := m.pipeline.chain.step_scrub m.chip.accWidth m.skewed.control m.product.sums m.memories.acc
  calc m.scrub.step.1.pipeline.scrub
      = { m.step.1.pipeline with
          hostLink := m.scrub.step.1.pipeline.hostLink.scrub
          chain := m.scrub.step.1.pipeline.chain.scrub } := rfl
    _ = { m.step.1.pipeline with
          hostLink := m.step.1.pipeline.hostLink.scrub
          chain := m.step.1.pipeline.chain.scrub } := congrArg₂ (fun link chain => { m.step.1.pipeline with
            hostLink := link, chain := chain }) hlink hchain
    _ = m.step.1.pipeline.scrub := rfl

theorem step_scrub : m.scrub.step.1.scrub = m.step.1.scrub := by
  calc m.scrub.step.1.scrub
      = { m with
          memories := m.scrub.step.1.memories
          pipeline := m.scrub.step.1.pipeline.scrub
          cycle := m.cycle + 1
          summary := m.summary.add m.scrub.step.2 } := rfl
    _ = m.step.1.scrub := by rw [memories_scrub, pipeline_scrub, events_scrub]; rfl

/-! ## Machines that are alike -/

variable {m m' : Machine}

namespace Alike

theorem step (h : m.Alike m') : m.step.1.Alike m'.step.1 ∧ m.step.2 = m'.step.2 := by
  constructor
  · rw [Alike, ← step_scrub m, h, step_scrub m']
  · rw [← events_scrub m, h, events_scrub m']

/-- What does not depend on values that do not count is the same. -/
theorem congr {β : Type} (h : m.Alike m') {f : Machine → β} (hf : ∀ m : Machine, f m.scrub = f m) : f m = f m' := by
  rw [← hf m, h, hf m']

theorem policy (h : m.Alike m') : m.chip.policy = m'.chip.policy := h.congr (f := fun m => m.chip.policy) fun _ => rfl

theorem cycle (h : m.Alike m') : m.cycle = m'.cycle := h.congr fun _ => rfl

theorem summary (h : m.Alike m') : m.summary = m'.summary := h.congr fun _ => rfl

theorem halted (h : m.Alike m') : m.halted = m'.halted := h.congr fun _ => rfl

theorem snapshot (h : m.Alike m') : m.snapshot = m'.snapshot := h.congr fun _ => rfl

/-- A tick fails for both machines with the same fault, or is a cycle of both. -/
theorem tick (h : m.Alike m') : (m.tick = .ok m.step ∧ m'.tick = .ok m'.step) ∨
    ∃ fault, m.tick = .error fault ∧ m'.tick = .error fault := by
  have hevents := h.step.2
  by_cases hz : m.step.2.hazards = []
  · left
    exact ⟨tick_of_quiet hz, tick_of_quiet (hevents ▸ hz)⟩
  · by_cases hp : m.chip.policy = .fail
    · right
      obtain ⟨z, zs, hz⟩ := List.exists_cons_of_ne_nil hz
      refine ⟨.hazard m.cycle z, tick_of_fail hp hz, ?_⟩
      rw [h.cycle]
      exact tick_of_fail (h.policy ▸ hp) (hevents ▸ hz)
    · left
      exact ⟨tick_of_ne_fail hp, tick_of_ne_fail (h.policy ▸ hp)⟩

theorem ticked (h : m.Alike m') : m.ticked.Alike m'.ticked ∧ m.tick.map (·.2) = m'.tick.map (·.2) := by
  rcases h.tick with ⟨htick, htick'⟩ | ⟨fault, htick, htick'⟩
  · rw [Machine.ticked, Machine.ticked, htick, htick']
    exact ⟨h.step.1, congrArg Except.ok h.step.2⟩
  · rw [Machine.ticked, Machine.ticked, htick, htick']
    exact ⟨h, rfl⟩

theorem runFor (h : m.Alike m') (limit budget : Nat) :
    (runFor limit budget m).1.Alike (runFor limit budget m').1 ∧
      (runFor limit budget m).2 = (runFor limit budget m').2 := by
  induction budget generalizing m m' with
  | zero =>
    rw [Machine.runFor, Machine.runFor, h.halted, h.summary]
    split
    · exact ⟨h, rfl⟩
    · exact ⟨h, rfl⟩
  | succ budget ih =>
    rw [Machine.runFor, Machine.runFor, h.halted, h.summary]
    split
    · exact ⟨h, rfl⟩
    · rcases h.tick with ⟨htick, htick'⟩ | ⟨fault, htick, htick'⟩
      · rw [htick, htick']
        exact ih h.step.1
      · rw [htick, htick']
        exact ⟨h, rfl⟩

/-- A reset clears every wire, whatever stands on it. -/
theorem reset (h : m.Alike m') : m.reset.Alike m'.reset := by
  have hreset : ∀ m : Machine, m.reset.scrub = m.scrub.reset.scrub := by
    intro m
    calc m.reset.scrub
        = { m.scrub.reset.scrub with pipeline.chain := m.pipeline.chain.clear.scrub } := rfl
      _ = m.scrub.reset.scrub := by
        rw [← ControlChain.clear_scrub]
        rfl
  rw [Alike, hreset, hreset m', h]

theorem poke (h : m.Alike m') (w : Poke) : (m.poke w).Alike (m'.poke w) := by
  have hpoke : ∀ m : Machine, (m.poke w).scrub = m.scrub.poke w := by
    intro m
    cases w <;> rfl
  rw [Alike, hpoke, hpoke m', h]

/-- Every operation keeps machines alike and answers the same. -/
theorem perform (h : m.Alike m') (op : Operation) :
    (m.perform op).1.Alike (m'.perform op).1 ∧ (m.perform op).2 = (m'.perform op).2 := by
  cases op with
  | tick => exact ⟨h.ticked.1, congrArg Answer.ticked h.ticked.2⟩
  | run limit => exact ⟨(h.runFor limit limit).1, congrArg Answer.ran (h.runFor limit limit).2⟩
  | reset => exact ⟨h.reset, rfl⟩
  | poke w => exact ⟨h.poke w, rfl⟩

/-- Machines that are alike show the same, whatever is done to them. -/
theorem observe (h : m.Alike m') (ops : List Operation) : m.observe ops = m'.observe ops := by
  induction ops generalizing m m' with
  | nil => rfl
  | cons op ops ih =>
    obtain ⟨hnext, hanswer⟩ := h.perform op
    rw [Machine.observe, Machine.observe, hanswer, hnext.summary, hnext.snapshot, ih hnext]

end Alike

end Machine

end Systolic
