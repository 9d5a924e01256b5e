import Systolic.CommandLine.Flag
import Systolic.Settings.Load

/-!
# Arguments

Arguments are flags, in long form or as letters that can share a dash, with their values. `parse` reads them from left to
right and stops at the first fault, or at the first flag that asks for help or for the version.
-/

namespace Systolic.CommandLine

/-- What the arguments ask a run to do. -/
structure Arguments where
  program : Option String := none
  host : Option String := none
  weights : Option String := none
  config : Option String := none
  overrides : Settings.Overrides := {}
  dumpConfig : Bool := false
  dumpHost : Option String := none
  deriving DecidableEq

inductive Intent
  | run (arguments : Arguments)
  | help
  | version
  deriving DecidableEq

/-- What can be wrong with the arguments. -/
inductive Misuse
  | unexpected (argument : String)
  | repeated (flag : Flag)
  | missingValue (flag : Flag)
  | unwantedValue (flag : Flag)
  | badValue (flag : Flag) (value : String)
  | noProgram
  deriving DecidableEq

def Misuse.message : Misuse → String
  | unexpected argument => s!"unexpected argument '{argument}' found"
  | repeated flag => s!"the argument '{flag.synopsis}' cannot be used multiple times"
  | missingValue flag => s!"a value is required for '{flag.synopsis}' but none was supplied"
  | unwantedValue flag => s!"'{flag.synopsis}' takes no value"
  | badValue flag value => s!"invalid value '{value}' for '{flag.synopsis}'"
  | noProgram => s!"the argument '{Flag.program.synopsis}' is required"

namespace Arguments

/-! ## Single flags -/

/-- The flags given so far, the latest first, with their values; the value of a flag that takes none is empty. -/
abbrev Given := List (Flag × String)

/-- A value that a flag can have. -/
def accepts (flag : Flag) (value : String) : Bool :=
  if flag.isPath then !value.isEmpty
  else if flag = .maxCycles then (Decimal.unsigned64? value.toList).isSome
  else true

/-- Take a flag with its value. -/
def give (given : Given) (flag : Flag) (value : String) : Except Misuse Given :=
  if !accepts flag value then .error (.badValue flag value)
  else if (given.lookup flag).isSome then .error (.repeated flag)
  else .ok ((flag, value) :: given)

/-- An argument that stands for flags and not for a value. -/
def isFlag (argument : String) : Bool :=
  match argument.toList with
  | '-' :: _ :: _ => true
  | _ => false

/-- What reading one argument leads to. -/
inductive Progress
  /-- Go on with the flags so far. -/
  | next (given : Given)
  /-- The next argument is the value of this flag. -/
  | pending (given : Given) (flag : Flag)
  | stop (intent : Intent)

/-- A flag that takes no value. -/
def switch (given : Given) (flag : Flag) : Except Misuse Progress :=
  match flag with
  | .help => .ok (.stop .help)
  | .version => .ok (.stop .version)
  | flag => (give given flag "").map .next

/-! ## Single arguments -/

/-- The letters after a dash. A letter whose flag takes a value has the rest for it, less an equals sign in front. -/
def letters (argument : String) (given : Given) : List Char → Except Misuse Progress
  | [] => .ok (.next given)
  | c :: rest =>
    match Flag.ofLetter? c with
    | none => .error (.unexpected argument)
    | some flag =>
      match flag.value?, rest with
      | some _, [] => .ok (.pending given flag)
      | some _, '=' :: value => (give given flag (.ofList value)).map .next
      | some _, value => (give given flag (.ofList value)).map .next
      | none, rest => do
        match ← switch given flag with
        | .next given => letters argument given rest
        | progress => return progress

/-- The name after two dashes, with a value after an equals sign. -/
def long (argument : String) (given : Given) (text : List Char) : Except Misuse Progress :=
  let name := text.takeWhile (· ≠ '=')
  match Flag.ofName? (.ofList name), text.drop name.length with
  | none, _ => .error (.unexpected argument)
  | some flag, rest =>
    match flag.value?, rest with
    | some _, [] => .ok (.pending given flag)
    | some _, _ :: value => (give given flag (.ofList value)).map .next
    | none, [] => switch given flag
    | none, _ :: _ => .error (.unwantedValue flag)

/-! ## All arguments -/

def value? (given : Given) (flag : Flag) : Option String := given.lookup flag

/-- What the flags ask for. A program is needed unless the configuration is all that is asked for. -/
def ofGiven (given : Given) : Except Misuse Intent :=
  let isGiven (flag : Flag) : Bool := (value? given flag).isSome
  if isGiven .program || isGiven .dumpConfig then
    .ok (.run {
      program := value? given .program
      host := value? given .host
      weights := value? given .weights
      config := value? given .config
      overrides := {
        quiet := isGiven .quiet
        stepMode := isGiven .step
        traceFile := value? given .traceFile
        maxCycles := (value? given .maxCycles).bind fun text => Decimal.unsigned64? text.toList }
      dumpConfig := isGiven .dumpConfig
      dumpHost := value? given .dumpHost })
  else .error .noProgram

/-- Read the arguments after those that gave `given`; the first of them is the value of the pending flag, if there is
one. After two dashes alone, nothing more may follow. -/
def read : Given → Option Flag → List String → Except Misuse Intent
  | given, none, [] => ofGiven given
  | _, some flag, [] => .error (.missingValue flag)
  | given, some flag, argument :: rest =>
    if isFlag argument then .error (.missingValue flag)
    else do read (← give given flag argument) none rest
  | given, none, argument :: rest => do
    let progress ← match argument.toList with
      | ['-', '-'] =>
        match rest with
        | [] => pure (.next given)
        | extra :: _ => .error (.unexpected extra)
      | '-' :: '-' :: text => long argument given text
      | '-' :: c :: text => letters argument given (c :: text)
      | _ => .error (.unexpected argument)
    match progress with
    | .next given => read given none rest
    | .pending given flag => read given (some flag) rest
    | .stop intent => return intent

/-- What the arguments ask for. -/
def parse (arguments : List String) : Except Misuse Intent := read [] none arguments

end Arguments

end Systolic.CommandLine
