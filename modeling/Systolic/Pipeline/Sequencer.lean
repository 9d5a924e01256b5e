import Systolic.Chip.Timing
import Systolic.Pipeline.Command
import Systolic.Program.Basic
import Systolic.Storage.Row

/-!
# Dispatch

The sequencer owns the program counter and one busy counter for each class of unit. At most one instruction is
dispatched in a cycle; it is latched and reaches its unit at the start of the next one. An instruction whose class is
still busy stalls where it is: the program counter holds and nothing is issued.
-/

namespace Systolic

/-- A counter one cycle later: it stays at zero once it is there. -/
def tickDown (n : UInt64) : UInt64 := if n = 0 then 0 else n - 1

/-- Busy cycles left for each class of unit. Host reads and writes share a class: transfers run one at a time. -/
structure Busy where
  matrix : UInt64 := 0
  activate : UInt64 := 0
  host : UInt64 := 0
  weights : UInt64 := 0
  deriving DecidableEq

namespace Busy

def idle (b : Busy) : Bool := b.matrix == 0 && b.activate == 0 && b.host == 0 && b.weights == 0

/-- One cycle later. -/
def countDown (b : Busy) : Busy := ⟨tickDown b.matrix, tickDown b.activate, tickDown b.host, tickDown b.weights⟩

end Busy

structure Sequencer where
  pc : UInt64 := 0
  busy : Busy := {}
  /-- Cycles before another weight switch may be dispatched. -/
  cooldown : UInt64 := 0
  halted : Bool := false
  /-- The command latched at the last edge, which the units see this cycle. -/
  issue : Option Command := none
  deriving DecidableEq

namespace Sequencer

/-- What the sequencer sees of the rest of the machine in a cycle. -/
structure Input where
  program : Program
  /-- Read for indirect addresses. -/
  pad : RowStore
  /-- A new program counter from the activation unit. -/
  redirect : Option UInt64 := none
  /-- The running activation ended early, on a branch or a jump. -/
  resolved : Bool := false

structure Output where
  dispatched : Option Instruction := none
  stalled : Bool := false
  deriving DecidableEq

/-- Whether `i` may be dispatched now. A running activation blocks everything, since it may still redirect the program
counter. The cooldown is a backstop: the busy time of a multiplication already outlasts it. -/
def ready (s : Sequencer) (i : Instruction) : Bool :=
  s.busy.activate == 0 &&
    match i.opcode with
    | .nop | .activate => true
    | .sync | .halt => s.busy.idle
    | .readHost | .writeHost => s.busy.host == 0
    | .readWeights => s.busy.weights == 0
    | .multiply => s.busy.matrix == 0 && (!i.has Instruction.switchBit || s.cooldown == 0)

/-- The scratchpad row named by element 0 of row `pointer`. -/
def indirect (chip : Chip) (pad : RowStore) (pointer : UInt64) : UInt64 :=
  Word.low chip.dataWidth ((pad.read pointer).getD 0 0)

/-- The transfer that a host instruction asks for: a single row when its scratchpad address is indirect. -/
def transfer (chip : Chip) (pad : RowStore) (i : Instruction) : Transfer :=
  if i.has Instruction.switchBit then ⟨i.memAddr, indirect chip pad i.padAddr, 1⟩
  else ⟨i.memAddr, i.padAddr, i.length⟩

/-- The command for instruction `i` at address `pc`. -/
def command? (chip : Chip) (pad : RowStore) (pc : UInt64) (i : Instruction) : Option Command :=
  match i.opcode with
  | .nop | .sync | .halt => none
  | .readHost =>
    if i.has Instruction.convertBit then some (.placeJump i.memAddr i.padAddr)
    else some (.readHost (transfer chip pad i))
  | .writeHost => some (.writeHost (transfer chip pad i))
  | .readWeights => some (.readWeights i.memAddr)
  | .multiply => some (.multiply ⟨i.padAddr, i.memAddr, i.length, i.has Instruction.overwriteBit,
      i.has Instruction.switchBit⟩)
  | .activate => some (.activate ⟨i.memAddr, i.padAddr, i.length, i.activation, pc⟩)

/-- The busy counters once `command` is issued: its own class is set, the others stay. -/
def charge (chip : Chip) (busy : Busy) : Command → Busy
  | .readHost t | .writeHost t => { busy with host := hostCycles t.length }
  | .placeJump _ _ => { busy with host := hostCycles 1 }
  | .readWeights _ => { busy with weights := chip.weightCycles }
  | .multiply m => { busy with matrix := chip.matrixCycles m.length }
  | .activate a => { busy with activate := activateCycles a.length }

/-- The registers after an edge at which nothing is dispatched: every counter one lower, and an activation that resolved
no longer counted. -/
def countDown (s : Sequencer) (resolved : Bool) : Sequencer :=
  let busy := s.busy.countDown
  { s with
    busy := if resolved then { busy with activate := 0 } else busy
    cooldown := tickDown s.cooldown
    issue := none }

/-- The registers after an edge at which `i` is dispatched from `s`, given those without it. -/
def dispatch (chip : Chip) (pad : RowStore) (s : Sequencer) (i : Instruction) (waiting : Sequencer) : Sequencer :=
  let issue := command? chip pad s.pc i
  { pc := if i.opcode = .halt then s.pc else s.pc + 1
    busy := (issue.map (charge chip waiting.busy)).getD waiting.busy
    cooldown := if i.opcode = .multiply ∧ i.has Instruction.switchBit then chip.switchCycles else waiting.cooldown
    halted := i.opcode = .halt
    issue }

/-- One cycle. A redirect has the last word on the program counter. -/
def step (chip : Chip) (s : Sequencer) (input : Input) : Sequencer × Output :=
  let waiting := s.countDown input.resolved
  let i := input.program.fetch s.pc
  let (next, output) : Sequencer × Output :=
    if s.halted then (waiting, {})
    else if s.ready i then (dispatch chip input.pad s i waiting, { dispatched := some i })
    else (waiting, { stalled := true })
  ({ next with pc := input.redirect.getD next.pc }, output)

/-- Every register back at its power-on value. -/
def clear (_ : Sequencer) : Sequencer := {}

end Sequencer

end Systolic
