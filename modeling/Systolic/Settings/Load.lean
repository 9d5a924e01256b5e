import Systolic.Settings.Basic
import Systolic.Settings.Environment
import Systolic.Settings.Place
import Systolic.Text.Path
import Systolic.Toml.Document
import Systolic.Toml.Marked

/-!
# Loading settings

Settings come in layers: the built-in ones, then a file, then the environment. What the command line says goes over all
of them, and the result has to be sound.
-/

namespace Systolic.Settings

/-- Why there are no settings. -/
inductive LoadError
  /-- A file that cannot be found or read as settings, or variables that cannot. -/
  | unreadable
  | invalid (flaw : Flaw)
  deriving DecidableEq

/-! ## Layers -/

/-- The built-in layer. The hazard policy is left out, so that a file can give it in any form. -/
def builtin : Tree :=
  let c : Chip := {}
  let l : Layout := {}
  let s : Settings := {}
  let count (n : Nat) : Tree := .integer n
  .group [
    ("tpu", .group [
      ("matrix_size", count c.size), ("data_width", count c.dataWidth), ("acc_width", count c.accWidth),
      ("ub_rows", count c.padRows), ("acc_rows", count c.accRows), ("host_rows", count c.hostRows),
      ("weight_tiles", count c.tiles), ("burst_bytes", count c.burstBytes), ("dram_latency", count c.latency),
      ("layout", .group [
        ("opcode_bytes", count l.opcode), ("flags_bytes", count l.flags), ("length_bytes", count l.length),
        ("host_addr_bytes", count l.memAddr), ("ub_addr_bytes", count l.padAddr)])]),
    ("simulation", .group [
      ("quiet", .flag s.quiet), ("step_mode", .flag s.stepMode), ("trace_file", .text s.traceFile),
      ("max_cycles", count s.maxCycles)])]

/-- The layer of a file, or nothing if the text is no document, or one that as a whole stands for a moment. -/
def fileEntries? (text : List Char) : Option (List (String × Tree)) :=
  match (Toml.Document.parse? text).bind fun entries => (Toml.Value.table entries).unmarked? with
  | some (.table entries) => some (Tree.ofEntries entries)
  | _ => none

/-- The built-in settings with a file's and the environment's over them. -/
def layered? (file : Option (List Char)) (env : Environment.Variables) : Option Settings := do
  let entries ← match file with
    | some text => fileEntries? text
    | none => some []
  ofTree? ((builtin.layer entries).layer (Environment.entries env))

/-! ## Over the layers -/

/-- What the command line says about a run. -/
structure Overrides where
  quiet : Bool := false
  stepMode : Bool := false
  traceFile : Option String := none
  maxCycles : Option Nat := none
  deriving DecidableEq

def override (s : Settings) (o : Overrides) : Settings :=
  { s with
    quiet := s.quiet || o.quiet
    stepMode := s.stepMode || o.stepMode
    traceFile := o.traceFile.getD s.traceFile
    maxCycles := o.maxCycles.getD s.maxCycles }

/-- The settings with the trace file seen from the directory `root`. -/
def resolve (root : String) (s : Settings) : Settings :=
  if s.traceFile.isEmpty then s else { s with traceFile := Text.Path.join root s.traceFile }

/-- The settings if they are sound. -/
def checked (s : Settings) : Except LoadError Settings :=
  match s.flaw? with
  | some flaw => .error (.invalid flaw)
  | none => .ok s

/-- The settings of a run in the directory `root`. -/
def load (root : String) (file : Option (List Char)) (env : Environment.Variables) (o : Overrides) :
    Except LoadError Settings :=
  match layered? file env with
  | none => .error .unreadable
  | some s => ((s.override o).resolve root).checked

theorem builtin_eq_default : ofTree? builtin = some {} := by decide

/-- Loaded settings describe a machine that can be built. -/
theorem valid_of_load {root : String} {file : Option (List Char)} {env : Environment.Variables} {o : Overrides}
    {s : Settings} (h : load root file env o = .ok s) : s.chip.Valid ∧ 0 < s.maxCycles := by
  rw [← flaw?_eq_none_iff]
  unfold load at h
  split at h
  · cases h
  · unfold checked at h
    split at h
    · cases h
    · cases h; assumption

end Systolic.Settings
