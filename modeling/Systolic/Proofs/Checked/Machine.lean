import Systolic.Proofs.Checked.Array

/-!
# Machines never trap

A `Rig` is a machine in the arrays that it is stored in: sites row after row, stages of the queue, accumulators column by
column. `Rig.machine` reads it as a machine. Building a rig, ticking it, running it and writing into its memories is done
with every partial operation checked.

A rig whose arrays have their sizes (`Rig.Sound`) goes through the ticks, runs and writes of its machine without a trap
(`Rig.Sound.tryTick_eq`, `Rig.Sound.tryPerform_eq`) and its arrays keep their sizes. So no machine ever traps, whatever
is done to it and under every hazard policy (`Machine.tick_never_traps`). Additions do not trap: sums of words wrap
around, and numbers have no upper bound.
-/

namespace Systolic

open Checked

structure Rig where
  chip : Chip
  program : Program
  pad : RowStore
  host : RowStore
  bank : Bank
  weights : TileStore
  sequencer : Sequencer
  hostLink : HostLink
  source : RowSource
  skew : SkewLines
  grid : Grid
  reader : TileReader
  fifo : Fifo
  chain : ControlChain
  activator : Activator
  cycle : Nat
  summary : Summary
  deriving DecidableEq

namespace Rig

def machine (r : Rig) : Machine :=
  { chip := r.chip
    program := r.program
    memories := { pad := r.pad, host := r.host, acc := r.bank.store, weights := r.weights }
    pipeline :=
      { sequencer := r.sequencer
        hostLink := r.hostLink
        source := r.source
        skew := r.skew
        mesh := r.grid.mesh r.chip.size
        reader := r.reader
        queue := r.fifo.queue
        chain := r.chain
        activator := r.activator }
    cycle := r.cycle
    summary := r.summary }

def powerOn (chip : Chip) (program : Program) : Rig :=
  { chip
    program
    pad := .blank chip.padRows chip.size
    host := .blank chip.hostRows chip.size
    bank := .blank chip.size chip.accRows
    weights := .blank chip.tiles chip.size
    sequencer := {}
    hostLink := {}
    source := {}
    skew := .idle chip.size
    grid := .idle chip.size
    reader := {}
    fifo := .empty chip.size
    chain := .idle chip.size
    activator := {}
    cycle := 0
    summary := {} }

/-- A rig at power-on, if its parameters are sound. The size of a burst and the number of bursts are worked out once. -/
def tryBuild (chip : Chip) (program : Program) : Checked (Except Chip.Flaw Rig) := do
  match ← chip.tryFlaw? with
  | some flaw => return .error flaw
  | none =>
    let _ ← chip.tryBurstElems
    let _ ← chip.tryBurstsPerTile
    return .ok (powerOn chip program)

/-- What the units have worked out in a cycle, before its edge. -/
structure Edge where
  sequencer : Sequencer
  hostLink : HostLink
  source : RowSource
  skew : SkewLines
  grid : Grid
  reader : TileReader
  fifo : Fifo
  chain : ControlChain
  activator : Activator
  activated : Option RowStore.Write
  fetched : Option RowStore.Write
  sent : Option RowStore.Write
  sums : List AccStore.Write
  events : CycleEvents

variable (r : Rig)

def tryWork : Checked Edge := do
  let issue := r.sequencer.issue
  let (activator, act) ← r.activator.tryStep r.chip (issue.bind (·.activation?)) r.bank
  let (sequencer, dispatch) ← r.sequencer.tryStep r.chip
    { program := r.program, pad := r.pad, redirect := act.redirect, resolved := act.resolved }
  let (hostLink, transfer) ← r.hostLink.tryStep r.chip issue r.pad r.host
  let (source, row?) ← r.source.tryStep (issue.bind (·.multiplication?)) r.pad
  let (skew, skewed) ← r.skew.tryStep row?
  let (reader, burst?) ← r.reader.tryStep r.chip (issue.bind (·.tile?)) r.weights
  let (grid, product) ← r.grid.tryStep r.chip skewed.lanes r.fifo.front?
  let (fifo, overflow) ← r.fifo.tryStep r.chip.size burst? product.advance
  let (chain, commit) ← r.chain.tryStep r.chip.accWidth skewed.control product.sums r.bank
  return { sequencer, hostLink, source, skew, grid, reader, fifo, chain, activator
           activated := act.write
           fetched := transfer.padWrite
           sent := transfer.hostWrite
           sums := commit.writes
           events :=
             { cycle := r.cycle
               pc := r.sequencer.pc
               dispatched := dispatch.dispatched
               stalled := dispatch.stalled
               redirect := act.redirect
               multiplied := commit.done
               hazards := product.hazard.toList ++ if overflow then [.queueOverflow] else [] } }

/-- The edge: registers and memories take over what has been worked out. -/
def tryLatch (e : Edge) : Checked Rig := do
  let pad ← r.pad.tryCommit e.activated
  let pad ← pad.tryCommit e.fetched
  let host ← r.host.tryCommit e.sent
  let bank ← r.bank.tryApply e.sums
  return { r with
    pad
    host
    bank
    sequencer := e.sequencer
    hostLink := e.hostLink
    source := e.source
    skew := e.skew
    grid := e.grid
    reader := e.reader
    fifo := e.fifo
    chain := e.chain
    activator := e.activator
    cycle := r.cycle + 1
    summary := r.summary.add e.events }

/-- One cycle under the chip's hazard policy. A hazard under `fail` is an error of the machine and no trap. -/
def tryTick : Checked (Except Fault (Rig × CycleEvents)) := do
  let edge ← r.tryWork
  match r.chip.policy, edge.events.hazards with
  | .fail, hazard :: _ => return .error (.hazard r.cycle hazard)
  | _, _ =>
    let next ← r.tryLatch edge
    return .ok (next, edge.events)

/-- Ticks until the program halts. The cycles that are spent since cycle `start` are counted by a subtraction; while
`fuel` more of them may follow, they stay below `limit`. -/
def tryRunFrom (limit start : Nat) : Nat → Rig → Checked (Rig × Except Fault Summary)
  | fuel, r => do
    if r.sequencer.halted then
      return (r, .ok r.summary)
    let spent ← sub r.cycle start
    if limit ≤ spent then
      return (r, .error (.cycleLimit limit))
    match fuel with
    | 0 => return (r, .error (.cycleLimit limit))
    | fuel + 1 =>
      match ← r.tryTick with
      | .error fault => return (r, .error fault)
      | .ok (next, _) => tryRunFrom limit start fuel next

def tryRun (limit : Nat) : Checked (Rig × Except Fault Summary) := tryRunFrom limit r.cycle limit r

/-- Registers, counters and summary start over, the memories stay. -/
def reset : Rig :=
  { r with
    sequencer := r.sequencer.clear
    hostLink := r.hostLink.clear
    source := r.source.clear
    skew := r.skew.clear
    grid := r.grid.clear
    reader := r.reader.clear
    fifo := r.fifo.clear
    chain := r.chain.clear
    activator := r.activator.clear
    cycle := 0
    summary := {} }

/-- What is written from outside is cut to the data width first. -/
def tryPoke : Poke → Checked Rig
  | .host addr row => do
    let row ← row.mapM (Word.tryWrap r.chip.dataWidth)
    let host ← r.host.tryWrite addr row
    return { r with host }
  | .pad addr row => do
    let row ← row.mapM (Word.tryWrap r.chip.dataWidth)
    let pad ← r.pad.tryWrite addr row
    return { r with pad }
  | .tile addr cells => do
    let cells ← cells.mapM (Word.tryWrap r.chip.dataWidth)
    let weights ← r.weights.tryStore addr cells
    return { r with weights }

/-- The rig after an operation; a tick that fails leaves it as it is. -/
def tryPerform : Operation → Checked Rig
  | .tick => do
    match ← r.tryTick with
    | .error _ => return r
    | .ok (next, _) => return next
  | .run limit => do
    let (next, _) ← r.tryRun limit
    return next
  | .reset => return r.reset
  | .poke p => r.tryPoke p

/-- The rig after several operations. -/
def tryPerformAll (ops : List Operation) : Checked Rig := ops.foldlM tryPerform r

/-! ## A rig works as its machine -/

/-- A rig whose machine has its shape and whose arrays have their sizes. -/
structure Sound (chip : Chip) (program : Program) (r : Rig) : Prop where
  formed : r.machine.Formed chip program
  grid : r.grid.Sound chip.size
  fifo : r.fifo.Sound
  bank : r.bank.Fits chip.size chip.accRows

/-- A machine in the arrays of a rig. -/
def of (m : Machine) (bank : Bank) (grid : Grid) (fifo : Fifo) : Rig :=
  { chip := m.chip
    program := m.program
    pad := m.memories.pad
    host := m.memories.host
    bank
    weights := m.memories.weights
    sequencer := m.pipeline.sequencer
    hostLink := m.pipeline.hostLink
    source := m.pipeline.source
    skew := m.pipeline.skew
    grid
    reader := m.pipeline.reader
    fifo
    chain := m.pipeline.chain
    activator := m.pipeline.activator
    cycle := m.cycle
    summary := m.summary }

/-- What a machine's units work out in a cycle, in the arrays of a rig. -/
def Edge.of (m : Machine) (grid : Grid) (fifo : Fifo) : Edge :=
  { sequencer := m.step.1.pipeline.sequencer
    hostLink := m.step.1.pipeline.hostLink
    source := m.step.1.pipeline.source
    skew := m.step.1.pipeline.skew
    grid
    reader := m.step.1.pipeline.reader
    fifo
    chain := m.step.1.pipeline.chain
    activator := m.step.1.pipeline.activator
    activated := m.activated.write
    fetched := m.transferred.padWrite
    sent := m.transferred.hostWrite
    sums := m.committed.writes
    events := m.step.2 }

variable {chip : Chip} {program : Program} {r : Rig}

theorem machine_of {m : Machine} {bank : Bank} {grid : Grid} {fifo : Fifo} (hbank : bank.store = m.memories.acc)
    (hmesh : grid.mesh m.chip.size = m.pipeline.mesh) (hqueue : fifo.queue = m.pipeline.queue) :
    (of m bank grid fifo).machine = m := by
  simp only [machine, of, hbank, hmesh, hqueue]

theorem machine_powerOn (h : chip.Valid) (program : Program) : (powerOn chip program).machine = .powerOn chip program := by
  simp only [machine, powerOn, Bank.store_blank h.size_pos, Grid.mesh_idle, Fifo.queue_empty]
  rfl

theorem sound_powerOn (h : chip.Valid) (program : Program) : (powerOn chip program).Sound chip program := by
  constructor
  · rw [machine_powerOn h]
    exact Machine.formed_powerOn h program
  · exact Grid.sound_idle chip.size
  · exact Fifo.sound_empty chip.size
  · exact Bank.fits_blank h.size_pos h.accRows

theorem Sound.chip_eq (h : r.Sound chip program) : r.chip = chip := h.formed.chip_eq

theorem Sound.pad (h : r.Sound chip program) : r.pad.Fits chip.padRows chip.size := h.formed.stores.pad

theorem Sound.host (h : r.Sound chip program) : r.host.Fits chip.hostRows chip.size := h.formed.stores.host

theorem Sound.weights (h : r.Sound chip program) : r.weights.Fits chip.size := h.formed.memories.weights

/-- A sum leaves every column. -/
theorem length_sums (r : Rig) : r.machine.product.sums.length = r.chip.size := by
  simp [Machine.product, Mesh.step, machine]

/-- No unit traps. -/
theorem Sound.tryWork_eq (h : r.Sound chip program) :
    ∃ grid fifo, r.tryWork = .ok (.of r.machine grid fifo) ∧ grid.Sound chip.size ∧
      grid.mesh chip.size = r.machine.step.1.pipeline.mesh ∧ fifo.Sound ∧
      fifo.queue = r.machine.step.1.pipeline.queue := by
  have hvalid := h.formed.valid
  have hpipe := h.formed.pipeline
  have hpadRows : 0 < r.pad.depth := h.pad.depth_eq ▸ hvalid.padRows
  have hhostRows : 0 < r.host.depth := h.host.depth_eq ▸ hvalid.hostRows
  obtain rfl := h.chip_eq
  have hlanes : r.machine.skewed.lanes.length = r.chip.size := by
    simpa [Machine.skewed, SkewLines.step] using hpipe.laneCount
  have hfront : ∀ t, r.fifo.front? = some t → t.size = r.chip.size ∧ t.cells.length = r.chip.size * r.chip.size := by
    intro t ht
    rw [h.fifo.front?_eq] at ht
    exact hpipe.tiles t (TileQueue.mem_tiles.2 (Or.inr (Or.inr ht)))
  obtain ⟨grid, hgrid, hgridSound, hmesh⟩ := Grid.tryStep_eq hvalid h.grid hpipe.topCount hpipe.programming hlanes hfront
  rw [h.fifo.front?_eq] at hmesh
  obtain ⟨fifo, hfifo, hfifoSound, hqueue⟩ := h.fifo.tryStep_eq hpipe.fill hpipe.filled
    (r.reader.step r.chip (r.sequencer.issue.bind (·.tile?)) r.weights).2 r.machine.product.advance
  refine ⟨grid, fifo, ?_, hgridSound, hmesh, hfifoSound, hqueue⟩
  -- Unit by unit: what each is fed with is named as what the machine's units show.
  have hskewed : (r.skew.step (r.source.step (r.sequencer.issue.bind (·.multiplication?)) r.pad).2).2 =
      r.machine.skewed := rfl
  have hproduct : ((r.grid.mesh r.chip.size).step r.chip r.machine.skewed.lanes r.fifo.front?).2 =
      r.machine.product := by
    rw [h.fifo.front?_eq]
    rfl
  have hreader : r.reader.tryStep r.chip (r.sequencer.issue.bind (·.tile?)) r.weights =
      .ok (r.reader.step r.chip (r.sequencer.issue.bind (·.tile?)) r.weights) :=
    TileReader.tryStep_eq hvalid hpipe.job _ h.weights
  have hchain : r.chain.tryStep r.chip.accWidth r.machine.skewed.control r.machine.product.sums r.bank =
      .ok (r.chain.step r.chip.accWidth r.machine.skewed.control r.machine.product.sums r.bank.store) :=
    ControlChain.tryStep_eq hvalid h.bank hpipe.hops r.length_sums _
  simp only [tryWork, Activator.tryStep_eq hvalid _ _ h.bank, Sequencer.tryStep_eq hvalid h.pad hvalid.padRows,
    HostLink.tryStep_eq hvalid _ _ hpadRows hhostRows, RowSource.tryStep_eq _ _ hpadRows, SkewLines.tryStep_eq, hskewed,
    hreader, hgrid, hproduct, hfifo, hchain, ok_bind]
  rfl

/-- No write of an edge traps: the rig that follows is the machine after the cycle. -/
theorem Sound.tryLatch_eq (h : r.Sound chip program) {grid : Grid} (hgrid : grid.Sound chip.size)
    (hmesh : grid.mesh chip.size = r.machine.step.1.pipeline.mesh) {fifo : Fifo} (hfifo : fifo.Sound)
    (hqueue : fifo.queue = r.machine.step.1.pipeline.queue) :
    ∃ next, r.tryLatch (.of r.machine grid fifo) = .ok next ∧ next.Sound chip program ∧
      next.machine = r.machine.step.1 := by
  have hvalid := h.formed.valid
  have hcolumns : ∀ w ∈ r.machine.committed.writes, w.column < chip.size := by
    intro w hw
    rw [← h.chip_eq, ← r.length_sums]
    exact ControlChain.column_lt hw
  obtain ⟨bank, hbank, hfits, hstore⟩ := h.bank.tryApply_eq hcolumns
  have hmachine : (of r.machine.step.1 bank grid fifo).machine = r.machine.step.1 := by
    obtain rfl := h.chip_eq
    exact machine_of hstore hmesh hqueue
  refine ⟨of r.machine.step.1 bank grid fifo, ?_, ?_, hmachine⟩
  · have hcommit : r.pad.tryCommit r.machine.activated.write = .ok (r.pad.commit r.machine.activated.write) :=
      RowStore.tryCommit_eq h.pad hvalid.padRows _
    have hcommit' : (r.pad.commit r.machine.activated.write).tryCommit r.machine.transferred.padWrite =
        .ok ((r.pad.commit r.machine.activated.write).commit r.machine.transferred.padWrite) :=
      RowStore.tryCommit_eq (h.pad.commit _) hvalid.padRows _
    have hsent : r.host.tryCommit r.machine.transferred.hostWrite =
        .ok (r.host.commit r.machine.transferred.hostWrite) := RowStore.tryCommit_eq h.host hvalid.hostRows _
    simp only [tryLatch, Edge.of, hcommit, hcommit', hsent, hbank, ok_bind]
    rfl
  · constructor
    · rw [hmachine]
      exact h.formed.step
    · exact hgrid
    · exact hfifo
    · exact hfits

/-- **A tick does not trap**, whatever hazards it shows: it is the tick of the machine, and the rig stays sound. -/
theorem Sound.tryTick_eq (h : r.Sound chip program) :
    ∃ result, r.tryTick = .ok result ∧ (result.map fun s => (s.1.machine, s.2)) = r.machine.tick ∧
      ∀ next events, result = .ok (next, events) → next.Sound chip program ∧ next.machine = r.machine.step.1 := by
  obtain ⟨grid, fifo, hwork, hgrid, hmesh, hfifo, hqueue⟩ := h.tryWork_eq
  obtain ⟨next, hlatch, hsound, hmachine⟩ := h.tryLatch_eq hgrid hmesh hfifo hqueue
  have hok : ∃ result : Except Fault (Rig × CycleEvents), (.ok (.ok (next, r.machine.step.2)) : Checked _) = .ok result ∧
      (result.map fun s => (s.1.machine, s.2)) = .ok (r.machine.step.1, r.machine.step.2) ∧
      ∀ after events, result = .ok (after, events) → after.Sound chip program ∧ after.machine = r.machine.step.1 := by
    refine ⟨_, rfl, by rw [Except.map, hmachine], ?_⟩
    intro after events heq
    cases heq
    exact ⟨hsound, hmachine⟩
  have hevents : (Edge.of r.machine grid fifo).events = r.machine.step.2 := rfl
  have hpolicy : r.machine.chip.policy = r.chip.policy := rfl
  rw [tryTick, hwork, ok_bind, hevents, hlatch, Machine.tick, hpolicy]
  cases r.chip.policy with
  | ignore => exact hok
  | warn => exact hok
  | fail =>
    dsimp only
    cases r.machine.step.2.hazards with
    | nil => exact hok
    | cons hazard rest =>
      refine ⟨_, rfl, rfl, ?_⟩
      intro after events heq
      cases heq

/-! ### Operations -/

/-- **No run traps**: the cycles spent never fall below zero, and every tick is one of the machine. -/
theorem Sound.tryRunFrom_eq (h : r.Sound chip program) {limit start fuel : Nat} (hfuel : start + limit = r.cycle + fuel)
    (hstart : start ≤ r.cycle) :
    ∃ next, tryRunFrom limit start fuel r = .ok (next, (Machine.runFor limit fuel r.machine).2) ∧
      next.Sound chip program ∧ next.machine = (Machine.runFor limit fuel r.machine).1 := by
  have hspent : sub r.cycle start = .ok (r.cycle - start) := sub_eq hstart
  have hhalted : r.machine.halted = r.sequencer.halted := rfl
  induction fuel generalizing r with
  | zero =>
    -- No fuel is left exactly when `limit` cycles are spent.
    have hlimit : limit ≤ r.cycle - start := by omega
    rw [tryRunFrom, Machine.runFor, hhalted]
    cases r.sequencer.halted with
    | true => exact ⟨r, rfl, h, rfl⟩
    | false =>
      simp only [Bool.false_eq_true, if_false, hspent, ok_bind, hlimit, if_true]
      exact ⟨r, rfl, h, rfl⟩
  | succ fuel ih =>
    have hlimit : ¬ limit ≤ r.cycle - start := by omega
    obtain ⟨result, hresult, htick, hnext⟩ := h.tryTick_eq
    rw [tryRunFrom, Machine.runFor, hhalted, ← htick]
    cases r.sequencer.halted with
    | true => exact ⟨r, rfl, h, rfl⟩
    | false =>
      simp only [Bool.false_eq_true, if_false, hspent, ok_bind, hlimit, hresult]
      cases result with
      | error fault => exact ⟨r, rfl, h, rfl⟩
      | ok s =>
        obtain ⟨next, events⟩ := s
        obtain ⟨hsound, hmachine⟩ := hnext next events rfl
        have hcycle : next.cycle = r.cycle + 1 := congrArg Machine.cycle hmachine
        exact ih hsound (by omega) (by omega) (sub_eq (by omega)) rfl

theorem Sound.tryRun_eq (h : r.Sound chip program) (limit : Nat) :
    ∃ next, r.tryRun limit = .ok (next, (r.machine.run limit).2) ∧ next.Sound chip program ∧
      next.machine = (r.machine.run limit).1 := h.tryRunFrom_eq rfl (Nat.le_refl _)

theorem Sound.reset (h : r.Sound chip program) : r.reset.Sound chip program ∧ r.reset.machine = r.machine.reset := by
  have hmachine : r.reset.machine = r.machine.reset := by
    simp only [machine, Rig.reset, Grid.mesh_clear, h.fifo.queue_clear]
    rfl
  refine ⟨?_, hmachine⟩
  constructor
  · rw [hmachine]
    exact h.formed.reset
  · exact h.grid.clear
  · exact h.fifo.clear
  · exact h.bank

/-- No write from outside traps, whatever its address and its length. -/
theorem Sound.tryPoke_eq (h : r.Sound chip program) (p : Poke) :
    ∃ next, r.tryPoke p = .ok next ∧ next.Sound chip program ∧ next.machine = r.machine.poke p := by
  have hvalid := h.formed.valid
  have hwrap : ∀ row : Row, row.mapM (Word.tryWrap r.chip.dataWidth) = .ok (row.wrap r.chip.dataWidth) := by
    intro row
    rw [h.chip_eq]
    apply mapM_ok
    intro v _
    exact hvalid.tryWrap_data v
  have hsound : ∀ next : Rig, next.machine = r.machine.poke p → next.grid = r.grid → next.fifo = r.fifo →
      next.bank = r.bank → next.Sound chip program := by
    intro next hmachine hgrid hfifo hbank
    constructor
    · rw [hmachine]
      exact h.formed.poke p
    · rw [hgrid]
      exact h.grid
    · rw [hfifo]
      exact h.fifo
    · rw [hbank]
      exact h.bank
  cases p with
  | host addr row =>
    have hwrite : r.host.tryWrite addr (row.wrap r.chip.dataWidth) =
        .ok (r.host.write addr (row.wrap r.chip.dataWidth)) :=
      RowStore.tryWrite_eq h.host hvalid.hostRows addr _
    refine ⟨{ r with host := r.host.write addr (row.wrap r.chip.dataWidth) }, ?_, hsound _ rfl rfl rfl rfl, rfl⟩
    rw [tryPoke, hwrap, ok_bind, hwrite]
    rfl
  | pad addr row =>
    have hwrite : r.pad.tryWrite addr (row.wrap r.chip.dataWidth) = .ok (r.pad.write addr (row.wrap r.chip.dataWidth)) :=
      RowStore.tryWrite_eq h.pad hvalid.padRows addr _
    refine ⟨{ r with pad := r.pad.write addr (row.wrap r.chip.dataWidth) }, ?_, hsound _ rfl rfl rfl rfl, rfl⟩
    rw [tryPoke, hwrap, ok_bind, hwrite]
    rfl
  | tile addr cells =>
    have hstore : r.weights.tryStore addr (cells.wrap r.chip.dataWidth) =
        .ok (r.weights.store addr (cells.wrap r.chip.dataWidth)) :=
      TileStore.tryStore_eq h.weights addr _
    refine ⟨{ r with weights := r.weights.store addr (cells.wrap r.chip.dataWidth) }, ?_, hsound _ rfl rfl rfl rfl, rfl⟩
    rw [tryPoke, hwrap, ok_bind, hstore]
    rfl

/-- **No operation traps.** -/
theorem Sound.tryPerform_eq (h : r.Sound chip program) (op : Operation) :
    ∃ next, r.tryPerform op = .ok next ∧ next.Sound chip program ∧ next.machine = (r.machine.perform op).1 := by
  cases op with
  | tick =>
    obtain ⟨result, hresult, htick, hnext⟩ := h.tryTick_eq
    rw [tryPerform, hresult, Machine.perform, Machine.ticked, ← htick]
    cases result with
    | error fault => exact ⟨r, rfl, h, rfl⟩
    | ok s => exact ⟨s.1, rfl, (hnext s.1 s.2 rfl).1, rfl⟩
  | run limit =>
    obtain ⟨next, hrun, hsound, hmachine⟩ := h.tryRun_eq limit
    refine ⟨next, ?_, hsound, hmachine⟩
    rw [tryPerform, hrun]
    rfl
  | reset => exact ⟨r.reset, rfl, h.reset.1, h.reset.2⟩
  | poke p => exact h.tryPoke_eq p

theorem Sound.tryPerformAll_eq (h : r.Sound chip program) (ops : List Operation) :
    ∃ next, r.tryPerformAll ops = .ok next ∧ next.Sound chip program ∧ next.machine = r.machine.performAll ops := by
  induction ops generalizing r with
  | nil => exact ⟨r, rfl, h, rfl⟩
  | cons op ops ih =>
    obtain ⟨after, hafter, hsound, hmachine⟩ := h.tryPerform_eq op
    obtain ⟨next, hnext, hsound', hmachine'⟩ := ih hsound
    refine ⟨next, ?_, hsound', ?_⟩
    · rw [tryPerformAll, List.foldlM_cons, hafter, ok_bind]
      exact hnext
    · rw [hmachine', hmachine, Machine.performAll_cons]

theorem tryBuild_eq (h : chip.Valid) (program : Program) : tryBuild chip program = .ok (.ok (powerOn chip program)) := by
  rw [tryBuild, Chip.tryFlaw?_eq, Chip.flaw?_eq_none_iff.2 h, ok_bind]
  dsimp only
  rw [h.tryBurstElems, ok_bind, h.tryBurstsPerTile]
  rfl

end Rig

namespace Machine

variable {chip : Chip} {program : Program} {m : Machine}

/-- **Machines never trap.** From sound parameters a rig is built, is used in any way and ticks once more, under any hazard
policy and after any hazard: no index and no slice is out of range, nothing is divided by zero, no unsigned number falls
below zero and nothing is shifted by 64 or more. What the tick gives is what the tick of the machine gives. -/
theorem tick_never_traps (h : build chip program = .ok m) (ops : List Operation) :
    ∃ fresh used result, Rig.tryBuild chip program = .ok (.ok fresh) ∧ fresh.tryPerformAll ops = .ok used ∧
      used.machine = m.performAll ops ∧ used.tryTick = .ok result ∧
      (result.map fun s => (s.1.machine, s.2)) = (m.performAll ops).tick := by
  obtain ⟨hvalid, rfl⟩ := of_build h
  obtain ⟨used, hused, hsound, hmachine⟩ := (Rig.sound_powerOn hvalid program).tryPerformAll_eq ops
  rw [Rig.machine_powerOn hvalid] at hmachine
  obtain ⟨result, hresult, htick, -⟩ := hsound.tryTick_eq
  refine ⟨Rig.powerOn chip program, used, result, Rig.tryBuild_eq hvalid program, hused, hmachine, hresult, ?_⟩
  rw [htick, hmachine]

/-- A machine that goes on after a switch to weights that nobody has loaded. -/
def careless : Machine :=
  let chip : Chip := { size := 4, padRows := 1, accRows := 1, hostRows := 1, tiles := 1, policy := .ignore }
  powerOn chip ⟨[(Instruction.multiply 0 0 1).withSwitch, .halt]⟩

/-- Rows that are too short or too long, the largest address, and a run that shows a hazard. -/
def rough : List Operation :=
  [.poke (.host 18446744073709551615 [1]), .poke (.pad 3 [1, 2, 3, 4, 5, 6]), .poke (.tile 9 []), .run 4, .tick]

theorem tick_never_traps_careless : build careless.chip careless.program = .ok careless ∧
    (careless.performAll rough).summary.hazards = [⟨2, .switchWithoutWeights⟩] ∧
    ∃ fresh used result, Rig.tryBuild careless.chip careless.program = .ok (.ok fresh) ∧
      fresh.tryPerformAll rough = .ok used ∧ used.machine = careless.performAll rough ∧ used.tryTick = .ok result ∧
      (result.map fun s => (s.1.machine, s.2)) = (careless.performAll rough).tick :=
  ⟨rfl, by decide +kernel, tick_never_traps rfl rough⟩

/-- Without the check of the parameters a tick may trap: a host memory of no rows has no row to read. -/
example : (Rig.powerOn { size := 4, padRows := 1, accRows := 1, hostRows := 0, tiles := 1 }
    ⟨[.readHost 0 0 1]⟩).tryPerformAll [.tick, .tick] = .error .divisor := by
  decide +kernel

end Machine

end Systolic
