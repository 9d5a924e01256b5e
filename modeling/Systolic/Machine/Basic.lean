import Systolic.Pipeline.Activator
import Systolic.Pipeline.ControlChain
import Systolic.Pipeline.HostLink
import Systolic.Pipeline.Mesh
import Systolic.Pipeline.RowSource
import Systolic.Pipeline.Sequencer
import Systolic.Pipeline.SkewLines
import Systolic.Pipeline.TileQueue
import Systolic.Pipeline.TileReader

/-!
# The machine

A machine is a chip with a program, its memories and the registers of its pipeline. In every cycle each unit sees the
registers as they stood at the last clock edge; the only connections within a cycle are

- the activation unit's redirect, which the sequencer obeys,
- the array's word to the queue that the front tile has been taken,
- the sums that leave the array for the accumulators.

`Machine.step` is one cycle with its edge. `Machine.tick` adds the hazard policy: under `fail` a hazard aborts the cycle
and nothing of it takes effect.
-/

namespace Systolic

/-- The memories. -/
structure Memories where
  pad : RowStore
  host : RowStore
  acc : AccStore
  weights : TileStore
  deriving DecidableEq

/-- The registers of the units. -/
structure Pipeline where
  sequencer : Sequencer
  hostLink : HostLink
  source : RowSource
  skew : SkewLines
  mesh : Mesh
  reader : TileReader
  queue : TileQueue
  chain : ControlChain
  activator : Activator
  deriving DecidableEq

namespace Memories

def blank (chip : Chip) : Memories :=
  { pad := .blank chip.padRows chip.size
    host := .blank chip.hostRows chip.size
    acc := .blank chip.size chip.accRows
    weights := .blank chip.tiles chip.size }

end Memories

namespace Pipeline

/-- The registers at power-on. -/
def idle (chip : Chip) : Pipeline :=
  { sequencer := {}
    hostLink := {}
    source := {}
    skew := .idle chip.size
    mesh := .idle chip.size
    reader := {}
    queue := .empty chip.size
    chain := .idle chip.size
    activator := {} }

/-- Every unit reset. -/
def clear (p : Pipeline) : Pipeline :=
  { sequencer := p.sequencer.clear
    hostLink := p.hostLink.clear
    source := p.source.clear
    skew := p.skew.clear
    mesh := p.mesh.clear
    reader := p.reader.clear
    queue := p.queue.clear
    chain := p.chain.clear
    activator := p.activator.clear }

end Pipeline

/-- A hazard and the cycle in which it arose. -/
structure HazardEvent where
  cycle : Nat
  hazard : Hazard
  deriving DecidableEq

/-- What happened in one cycle. -/
structure CycleEvents where
  cycle : Nat
  /-- The program counter at the start of the cycle. -/
  pc : UInt64
  dispatched : Option Instruction
  stalled : Bool
  redirect : Option UInt64
  /-- The last row of a multiplication reached the accumulators. -/
  multiplied : Bool
  hazards : List Hazard
  deriving DecidableEq

/-- What happened since power-on. -/
structure Summary where
  cycles : Nat := 0
  dispatched : Nat := 0
  stalls : Nat := 0
  hazards : List HazardEvent := []
  deriving DecidableEq

/-- The summary with one more cycle. -/
def Summary.add (s : Summary) (e : CycleEvents) : Summary :=
  { cycles := s.cycles + 1
    dispatched := s.dispatched + e.dispatched.isSome.toNat
    stalls := s.stalls + e.stalled.toNat
    hazards := s.hazards ++ e.hazards.map (⟨e.cycle, ·⟩) }

/-- Why a run ends without a halt. -/
inductive Fault
  | hazard (cycle : Nat) (hazard : Hazard)
  | cycleLimit (limit : Nat)
  deriving DecidableEq

def Fault.message : Fault → String
  | hazard cycle h => s!"timing hazard at cycle {cycle}: {h.message}"
  | cycleLimit limit => s!"program did not halt within {limit} cycles"

structure Machine where
  chip : Chip
  program : Program
  memories : Memories
  pipeline : Pipeline
  cycle : Nat := 0
  summary : Summary := {}
  deriving DecidableEq

namespace Machine

/-- A machine at power-on with blank memories. -/
def powerOn (chip : Chip) (program : Program) : Machine :=
  { chip, program, memories := .blank chip, pipeline := .idle chip }

/-- A machine at power-on, if its parameters are sound. -/
def build (chip : Chip) (program : Program) : Except Chip.Flaw Machine :=
  match chip.flaw? with
  | some flaw => .error flaw
  | none => .ok (powerOn chip program)

variable (m : Machine)

/-! ## The memories from outside: what is written is cut to the data width -/

def writeHost (addr : UInt64) (row : Row) : Machine :=
  { m with memories.host := m.memories.host.write addr (row.wrap m.chip.dataWidth) }

def writePad (addr : UInt64) (row : Row) : Machine :=
  { m with memories.pad := m.memories.pad.write addr (row.wrap m.chip.dataWidth) }

def storeTile (addr : UInt64) (cells : Row) : Machine :=
  { m with memories.weights := m.memories.weights.store addr (cells.wrap m.chip.dataWidth) }

/-! ## State that shows -/

def pc : UInt64 := m.pipeline.sequencer.pc

def halted : Bool := m.pipeline.sequencer.halted

def busy : Busy := m.pipeline.sequencer.busy

/-- Complete tiles in the queue. -/
def queued : Nat := m.pipeline.queue.occupancy m.chip.size

/-! ## One cycle -/

/-- One cycle with its clock edge, whatever hazards it shows. On a scratchpad row that the activation unit and the host
link write at once, the host's row remains. -/
def step : Machine × CycleEvents :=
  let { pad, host, acc, weights } := m.memories
  let p := m.pipeline
  let issue := p.sequencer.issue
  let (activator, act) := p.activator.step m.chip (issue.bind (·.activation?)) acc
  let (sequencer, dispatch) :=
    p.sequencer.step m.chip { program := m.program, pad, redirect := act.redirect, resolved := act.resolved }
  let (hostLink, transfer) := p.hostLink.step m.chip issue pad host
  let (source, row?) := p.source.step (issue.bind (·.multiplication?)) pad
  let (skew, skewed) := p.skew.step row?
  let (reader, burst?) := p.reader.step m.chip (issue.bind (·.tile?)) weights
  let (mesh, product) := p.mesh.step m.chip skewed.lanes p.queue.front
  let (queue, overflow) := p.queue.step m.chip.size burst? product.advance
  let (chain, commit) := p.chain.step m.chip.accWidth skewed.control product.sums acc
  let events : CycleEvents :=
    { cycle := m.cycle
      pc := p.sequencer.pc
      dispatched := dispatch.dispatched
      stalled := dispatch.stalled
      redirect := act.redirect
      multiplied := commit.done
      hazards := product.hazard.toList ++ if overflow then [.queueOverflow] else [] }
  ({  m with
      memories :=
        { pad := (pad.commit act.write).commit transfer.padWrite
          host := host.commit transfer.hostWrite
          acc := acc.apply commit.writes
          weights }
      pipeline := { sequencer, hostLink, source, skew, mesh, reader, queue, chain, activator }
      cycle := m.cycle + 1
      summary := m.summary.add events },
    events)

/-- One cycle under the chip's hazard policy: with `fail`, the first hazard of a cycle is an error and the machine stays
as it is. -/
def tick : Except Fault (Machine × CycleEvents) :=
  let (next, events) := m.step
  match m.chip.policy, events.hazards with
  | .fail, hazard :: _ => .error (.hazard m.cycle hazard)
  | _, _ => .ok (next, events)

/-- The machine after a reset: registers, counters and summary start over, the memories stay. -/
def reset : Machine := { m with pipeline := m.pipeline.clear, cycle := 0, summary := {} }

/-- Cycles until the program halts, at most `budget` of them; `limit` is what the error quotes. The machine is the one
after the last complete cycle. -/
def runFor (limit : Nat) : Nat → Machine → Machine × Except Fault Summary
  | budget, m =>
    if m.halted then (m, .ok m.summary)
    else
      match budget with
      | 0 => (m, .error (.cycleLimit limit))
      | budget + 1 =>
        match m.tick with
        | .error fault => (m, .error fault)
        | .ok (next, _) => runFor limit budget next

/-- Run until the program halts, for at most `limit` further cycles. -/
def run (limit : Nat) : Machine × Except Fault Summary := runFor limit limit m

end Machine

end Systolic
