import Systolic.Chip.Basic
import Systolic.Settings.Tree

/-!
# Settings

What a run is configured with: a chip and how to drive it. `Settings.ofTree?` reads them off a settings tree, in which
numbers, texts and truth values stand in for each other where they can, and what is left out keeps its default.
-/

namespace Systolic

structure Settings where
  chip : Chip := {}
  quiet : Bool := false
  stepMode : Bool := false
  /-- Where the trace goes; empty for no trace. -/
  traceFile : String := ""
  maxCycles : Nat := 1000000
  deriving DecidableEq

namespace Settings

/-! ## Single values -/

namespace Tree

/-- Words for yes and no, in either case. -/
def ofWord? (s : String) : Option Bool :=
  if ["true", "on", "yes"].contains (lower s) then some true
  else if ["false", "off", "no"].contains (lower s) then some false
  else none

/-- A count of 64 bits. -/
def count? : Tree → Option Nat
  | integer n => if 0 ≤ n then some n.toNat else none
  | real x => some x.toCount
  | flag b => some b.toNat
  | text s =>
    match ofWord? s with
    | some b => some b.toNat
    | none => Decimal.unsigned64? s.toList
  | nothing | list _ | group _ => none

/-- A count of 32 bits; a greater one is none. -/
def width? (t : Tree) : Option Nat := t.count?.filter (· < Nat.pow 2 32)

def flag? : Tree → Option Bool
  | flag b => some b
  | integer n => some (n ≠ 0)
  | real x => some (!x.isZero)
  | text s => if s = "1" then some true else if s = "0" then some false else ofWord? s
  | nothing | list _ | group _ => none

def text? : Tree → Option String
  | text s => some s
  | flag b => some (toString b)
  | integer n => some (toString n)
  | real x => some x.text
  | nothing | list _ | group _ => none

/-- A policy by its name in either case; a group with one member is named by that member. -/
def policy? : Tree → Option HazardPolicy
  | text s => HazardPolicy.ofName? (lower s)
  | group [(name, _)] => HazardPolicy.ofName? (lower name)
  | _ => none

end Tree

/-! ## Sections -/

/-- A section gives its fields by name, or in order. -/
inductive Section
  | named (members : Keyed Tree)
  | ordered (items : List Tree)

namespace Section

def ofTree? : Tree → Option Section
  | .group members => some (named members)
  | .list items => some (ordered items)
  | _ => none

/-- The field of that name, which is the one at `position` where fields go in order. -/
def get? (s : Section) (position : Nat) (name : String) : Option Tree :=
  match s with
  | named members => Keyed.get? name members
  | ordered items => items[position]?

/-- Read a field; one that is left out has its default. -/
def read {α : Type} (s : Section) (position : Nat) (name : String) (reader : Tree → Option α) (default : α) : Option α :=
  match s.get? position name with
  | some t => reader t
  | none => some default

end Section

def layoutOfTree? (t : Tree) : Option Layout := do
  let s ← Section.ofTree? t
  let d : Layout := {}
  return {
    opcode := ← s.read 0 "opcode_bytes" Tree.count? d.opcode
    flags := ← s.read 1 "flags_bytes" Tree.count? d.flags
    length := ← s.read 2 "length_bytes" Tree.count? d.length
    memAddr := ← s.read 3 "host_addr_bytes" Tree.count? d.memAddr
    padAddr := ← s.read 4 "ub_addr_bytes" Tree.count? d.padAddr }

def chipOfTree? (t : Tree) : Option Chip := do
  let s ← Section.ofTree? t
  let d : Chip := {}
  return {
    size := ← s.read 0 "matrix_size" Tree.count? d.size
    dataWidth := ← s.read 1 "data_width" Tree.width? d.dataWidth
    accWidth := ← s.read 2 "acc_width" Tree.width? d.accWidth
    padRows := ← s.read 3 "ub_rows" Tree.count? d.padRows
    accRows := ← s.read 4 "acc_rows" Tree.count? d.accRows
    hostRows := ← s.read 5 "host_rows" Tree.count? d.hostRows
    tiles := ← s.read 6 "weight_tiles" Tree.count? d.tiles
    burstBytes := ← s.read 7 "burst_bytes" Tree.count? d.burstBytes
    latency := ← s.read 8 "dram_latency" Tree.count? d.latency
    policy := ← s.read 9 "hazard_policy" Tree.policy? d.policy
    layout := ← s.read 10 "layout" layoutOfTree? d.layout }

/-- The settings of a run on the given chip. -/
def runOfTree? (chip : Chip) (t : Tree) : Option Settings := do
  let s ← Section.ofTree? t
  let d : Settings := {}
  return {
    chip
    quiet := ← s.read 0 "quiet" Tree.flag? d.quiet
    stepMode := ← s.read 1 "step_mode" Tree.flag? d.stepMode
    traceFile := ← s.read 2 "trace_file" Tree.text? d.traceFile
    maxCycles := ← s.read 3 "max_cycles" Tree.count? d.maxCycles }

/-- The settings that a tree describes. -/
def ofTree? (t : Tree) : Option Settings := do
  let s ← Section.ofTree? t
  let chip ← s.read 0 "tpu" chipOfTree? {}
  s.read 1 "simulation" (runOfTree? chip) { chip }

/-! ## Soundness -/

/-- What can be wrong with settings. -/
inductive Flaw
  | chip (flaw : Chip.Flaw)
  | noCycles
  deriving DecidableEq

def Flaw.message : Flaw → String
  | chip flaw => flaw.message
  | noCycles => "invalid configuration: max_cycles cannot be zero"

/-- The first flaw, the chip's before that of the run. -/
def flaw? (s : Settings) : Option Flaw :=
  match s.chip.flaw? with
  | some flaw => some (.chip flaw)
  | none => if s.maxCycles = 0 then some .noCycles else none

/-- Nothing is found wrong with a sound chip that may run for a cycle at least. -/
theorem flaw?_eq_none_iff {s : Settings} : s.flaw? = none ↔ s.chip.Valid ∧ 0 < s.maxCycles := by
  rw [← Chip.flaw?_eq_none_iff, flaw?]
  split <;> rename_i h
  · simp [h]
  · simp [h, Nat.pos_iff_ne_zero]

end Settings

end Systolic
