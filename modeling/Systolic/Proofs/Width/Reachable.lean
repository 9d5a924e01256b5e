import Systolic.Proofs.Width.Units

/-!
# The width invariant

In every reachable machine every element that is stored, held in a register or under way between two units is a signed
number of its width (`Machine.Signed`): a cycle keeps this, whatever hazards it shows (`Machine.Signed.step`), and so do
resets and writes from outside. `Machine.Reachable.signed` is the invariant of whole uses.
-/

namespace Systolic

/-- Every register that holds elements, weights or sums holds signed numbers of their width. -/
structure Pipeline.Signed (chip : Chip) (p : Pipeline) : Prop where
  /-- The response of the host link, valid or stale. -/
  response : p.hostLink.response.value.row.Signed chip.dataWidth
  skew : p.skew.Signed chip.dataWidth
  mesh : p.mesh.Signed chip
  queue : p.queue.Signed chip.dataWidth

theorem Pipeline.signed_idle (chip : Chip) : (idle chip).Signed chip := by
  constructor
  · exact Row.signed_nil _
  · exact SkewLines.signed_idle _ _
  · exact Mesh.signed_idle _ _
  · exact TileQueue.signed_empty _ _

theorem Pipeline.Signed.clear {chip : Chip} {p : Pipeline} (h : p.Signed chip) : p.clear.Signed chip := by
  constructor
  · exact h.response
  · exact SkewLines.signed_clear _ _
  · exact Mesh.signed_clear _ _
  · exact TileQueue.signed_clear _ _

namespace Machine

/-- Every element of the memories and of the registers is a signed number of its width. -/
structure Signed (m : Machine) : Prop where
  memories : m.memories.Signed m.chip
  pipeline : m.pipeline.Signed m.chip

variable {chip : Chip} {program : Program} {m : Machine}

theorem signed_powerOn (chip : Chip) (program : Program) : (powerOn chip program).Signed :=
  ⟨Memories.signed_blank chip, Pipeline.signed_idle chip⟩

/-! ## One cycle -/

theorem Signed.pushed (h : m.Signed) (row : MatrixRow) (hrow : m.pushed = some row) :
    row.data.Signed m.chip.dataWidth :=
  RowSource.signed_row _ _ h.memories.pad hrow

/-- The tile at the front of the queue. -/
theorem Signed.front (h : m.Signed) (t : Tile) (ht : m.pipeline.queue.front = some t) :
    Row.Signed m.chip.dataWidth t.cells := by
  apply h.pipeline.queue.tiles
  rw [TileQueue.mem_tiles]
  exact Or.inr (Or.inr ht)

theorem Signed.memories_step (hvalid : m.chip.Valid) (h : m.Signed) : m.step.1.memories.Signed m.chip := by
  have hmem := h.memories
  constructor
  · apply RowStore.Signed.commit
    · apply hmem.pad.commit
      intro w hw
      exact Activator.signed_write hvalid _ _ _ hw
    · intro w hw
      have hresponse := h.pipeline.response
      replace hw : m.pipeline.hostLink.response.get? = some w := hw
      unfold Wire.get? at hw
      split at hw
      · obtain rfl := Option.some.inj hw
        exact hresponse
      · cases hw
  · apply hmem.host.commit
    intro w hw
    obtain ⟨j, -, rfl⟩ := Option.map_eq_some_iff.1 hw
    exact hmem.pad.read _
  · apply hmem.acc.apply
    apply ControlChain.signed_writes hvalid
    exact h.pipeline.mesh.sums m.skewed.lanes m.pipeline.queue.front
  · exact hmem.weights

theorem Signed.pipeline_step (hvalid : m.chip.Valid) (h : m.Signed) : m.step.1.pipeline.Signed m.chip := by
  constructor
  · exact HostLink.signed_response hvalid h.pipeline.response h.memories.host m.issue m.memories.pad
  · exact h.pipeline.skew.step h.pushed
  · apply h.pipeline.mesh.step hvalid
    · exact h.pipeline.skew.lanes_step h.pushed
    · exact h.front
  · apply h.pipeline.queue.step
    intro burst hburst
    exact TileReader.signed_burst _ (m.issue.bind (·.tile?)) h.memories.weights hburst

/-- A cycle keeps the widths. -/
theorem Signed.step (hvalid : m.chip.Valid) (h : m.Signed) : m.step.1.Signed :=
  ⟨h.memories_step hvalid, h.pipeline_step hvalid⟩

/-! ## Uses of a machine -/

theorem Signed.reset (h : m.Signed) : m.reset.Signed := ⟨h.memories, h.pipeline.clear⟩

/-- What is written from outside is cut to the data width. -/
theorem Signed.poke (hvalid : m.chip.Valid) (h : m.Signed) (p : Poke) : (m.poke p).Signed := by
  obtain ⟨hmem, hpipe⟩ := h
  cases p with
  | host addr row => exact ⟨⟨hmem.pad, hmem.host.write (hvalid.signed_row row) addr, hmem.acc, hmem.weights⟩, hpipe⟩
  | pad addr row => exact ⟨⟨hmem.pad.write (hvalid.signed_row row) addr, hmem.host, hmem.acc, hmem.weights⟩, hpipe⟩
  | tile addr cells =>
    exact ⟨⟨hmem.pad, hmem.host, hmem.acc, hmem.weights.store (hvalid.signed_row cells) addr⟩, hpipe⟩

/-- **The width invariant.** Whatever is done to a machine from power-on, under every hazard policy: every element of the
scratchpad, of the host memory and of the weight store, every weight in the queue, in a cell or on its way down a column,
every element on its way through the array and every row that waits to land in the scratchpad is a signed number of the
data width, every partial sum and every accumulator a signed number of the accumulator width. -/
theorem Reachable.signed (h : Reachable chip program m) : m.Signed := by
  apply h.invariant
  · exact signed_powerOn chip program
  · intro m hm hs
    apply hs.step
    rw [hm.chip_eq]
    exact hm.valid
  · intro m hm hs
    exact hs.reset
  · intro m p hm hs
    apply hs.poke
    rw [hm.chip_eq]
    exact hm.valid

/-- A chip with narrow accumulators. -/
def narrow : Chip := { size := 4, accWidth := 11, padRows := 2, accRows := 2, hostRows := 2, tiles := 1 }

/-- One row times one tile. -/
def oneRow : Program :=
  ⟨[.readWeights 0, .sync, (Instruction.multiply 0 0 1).withSwitch.withOverwrite, .sync, .halt]⟩

/-- A product of numbers beyond eight bits, which are cut on their way in; the sums, beyond eleven bits, are cut by the
array. -/
def oversized : Machine :=
  (powerOn narrow oneRow).performAll
    [.poke (.tile 0 [300, -129, 128]), .poke (.pad 0 [1000, -1000]), .run 100]

theorem Reachable.signed_oversized : Reachable narrow oneRow oversized ∧
    oversized.memories.weights.read 0 = [44, 127, -128] ++ List.replicate 13 0 ∧
    oversized.memories.pad.read 0 = [-24, 24, 0, 0] ∧ oversized.memories.acc.readRow 0 = [992, -1000, -1024, 0] ∧
    oversized.Signed := by
  have hreach : Reachable narrow oneRow oversized := (Reachable.build rfl).performAll _
  exact ⟨hreach, by decide +kernel, by decide +kernel, by decide +kernel, hreach.signed⟩

end Machine

end Systolic
