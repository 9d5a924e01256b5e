import Systolic.Text.Align

/-!
# Flags

The flags of the command line. Each has a long name, most have a letter, and some take a value. The help text is made
from these.
-/

namespace Systolic.CommandLine

inductive Flag
  | program
  | host
  | weights
  | config
  | step
  | quiet
  | traceFile
  | maxCycles
  | dumpConfig
  | dumpHost
  | help
  | version
  deriving DecidableEq

namespace Flag

/-- The flags in the order of the help text. -/
def all : List Flag :=
  [program, host, weights, config, step, quiet, traceFile, maxCycles, dumpConfig, dumpHost, help, version]

def name : Flag → String
  | program => "program"
  | host => "host"
  | weights => "weights"
  | config => "config"
  | step => "step"
  | quiet => "quiet"
  | traceFile => "trace-file"
  | maxCycles => "max-cycles"
  | dumpConfig => "dump-config"
  | dumpHost => "dump-host"
  | help => "help"
  | version => "version"

def letter? : Flag → Option Char
  | program => some 'p'
  | weights => some 'w'
  | config => some 'c'
  | step => some 's'
  | quiet => some 'q'
  | help => some 'h'
  | version => some 'V'
  | host | traceFile | maxCycles | dumpConfig | dumpHost => none

/-- What the value of a flag is called, for the flags that take one. -/
def value? : Flag → Option String
  | program => some "PROGRAM"
  | host => some "HOST"
  | weights => some "WEIGHTS"
  | config => some "CONFIG"
  | traceFile => some "TRACE_FILE"
  | maxCycles => some "MAX_CYCLES"
  | dumpHost => some "DUMP_HOST"
  | step | quiet | dumpConfig | help | version => none

/-- The flags whose value is the path of a file that must have a name. -/
def isPath : Flag → Bool
  | program | host | weights | dumpHost => true
  | _ => false

def description : Flag → String
  | program => "Binary instruction stream"
  | host => "Host memory image"
  | weights => "Weight DRAM image"
  | config => "Configuration file layered over the built-in defaults"
  | step => "Interactive step mode"
  | quiet | maxCycles => ""
  | traceFile => "JSON-lines per-cycle trace output"
  | dumpConfig => "Print the effective configuration and exit"
  | dumpHost => "Write the final host memory image here"
  | help => "Print help"
  | version => "Print version"

def ofName? (name : String) : Option Flag := all.find? (·.name == name)

def ofLetter? (letter : Char) : Option Flag := all.find? (·.letter? == some letter)

theorem mem_all (f : Flag) : f ∈ all := by cases f <;> decide

theorem ofName?_name (f : Flag) : ofName? f.name = some f := by cases f <;> decide

/-! ## Help -/

/-- A flag with its value, as in `--program <PROGRAM>`. -/
def synopsis (f : Flag) : String :=
  match f.value? with
  | some value => s!"--{f.name} <{value}>"
  | none => s!"--{f.name}"

/-- Characters that the synopsis of any flag fits in. -/
def synopsisWidth : Nat := (all.map (·.synopsis.length)).foldl max 0

/-- The line of a flag in the help text; its description starts in the same column for every flag. -/
def helpLine (f : Flag) : String :=
  let letter := match f.letter? with
    | some c => s!"  -{c}, "
    | none => "      "
  s!"{letter}{Text.left (synopsisWidth + 2) f.synopsis}{f.description}\n"

end Flag

def versionText : String := "tpusim 0.1.0\n"

def helpText : String :=
  "Cycle-accurate systolic-array TPU simulator\n\nUsage: tpusim [OPTIONS]\n\nOptions:\n" ++
    String.join (Flag.all.map (·.helpLine))

end Systolic.CommandLine
