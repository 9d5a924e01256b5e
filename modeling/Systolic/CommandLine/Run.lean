import Systolic.CommandLine.Arguments
import Systolic.Machine.Image
import Systolic.Session.Conversation
import Systolic.Session.Lines
import Systolic.Settings.Text

/-!
# Runs

What the program does with its arguments in its surroundings: `start` reads the settings, the program and the images, a
session drives the machine, and `finish` says what is printed and written at the end. `execute` is all of it for input
that is known in advance.
-/

namespace Systolic.CommandLine

/-- What a run can see of its surroundings. -/
structure World where
  /-- The directory from which relative paths are seen. -/
  root : String
  env : Settings.Environment.Variables
  /-- The contents of the file at a path. -/
  file? : String → Option (List UInt8)
  /-- Whether a file can be created at a path. -/
  canCreate : String → Bool

/-- Why a run fails. -/
inductive Failure
  | unreadable (path : String)
  | unwritable (path : String)
  | settings (error : Settings.LoadError)
  /-- The settings have numbers that no document can hold. -/
  | settingsTooLarge
  | decode (error : DecodeError)
  | image (error : RaggedImage)
  | fault (error : Fault)
  deriving DecidableEq

def Failure.message : Failure → String
  | unreadable path => s!"cannot read {path}"
  | unwritable path => s!"cannot write {path}"
  | settings .unreadable => "failed to load configuration"
  | settings (.invalid flaw) => flaw.message
  | settingsTooLarge => "failed to serialize configuration: out-of-range value for u64 type"
  | decode e => e.message
  | image e => e.message
  | fault e => e.message

/-- A session with where its results go. -/
structure Run where
  session : Session
  stepMode : Bool
  tracePath : Option String
  dumpPath : Option String

/-! ## Before the session -/

/-- A piece of work that may fail; what it has printed by then stays. -/
abbrev Work := ExceptT Failure (StateM String)

def print (text : String) : Work Unit := modify (· ++ text)

namespace World

variable (w : World)

def read (path : String) : Work (List UInt8) :=
  match w.file? (Text.Path.join w.root path) with
  | some bytes => return bytes
  | none => throw (.unreadable path)

/-- The paths at which a configuration file is looked for: as given, and with `.toml` after the last name. -/
def configPaths (root path : String) : List String :=
  let path := Text.Path.join root path
  path :: (Text.Path.withEnding? ".toml" path).toList

/-- The text of a configuration file, which has to be UTF-8. -/
def configText? (bytes : List UInt8) : Option (List Char) := (String.fromUTF8? ⟨bytes.toArray⟩).map (·.toList)

/-- The configuration file that the arguments name, if they name one. -/
def config (a : Arguments) : Work (Option (List Char)) :=
  match a.config with
  | none => return none
  | some path =>
    match ((configPaths w.root path).findSome? w.file?).bind configText? with
    | some text => return some text
    | none => throw (.settings .unreadable)

def settings (a : Arguments) : Work Settings := do
  MonadExcept.ofExcept ((Settings.load w.root (← w.config a) w.env a.overrides).mapError Failure.settings)

/-- Load an image with `load`, if there is one, and log how many pieces it had. -/
def loadImage (s : Settings) (path : Option String) (pieces : String)
    (load : Machine → List UInt8 → Except RaggedImage (Machine × Nat)) (m : Machine) : Work Machine := do
  match path with
  | none => return m
  | some path =>
    let (m, count) ← MonadExcept.ofExcept ((load m (← w.read path)).mapError Failure.image)
    print (Session.logLine s.quiet s!"Loaded {count} {pieces} from {path}")
    return m

/-- The session on the program at `path`, with its images loaded. -/
def launch (a : Arguments) (s : Settings) (path : String) : Work Run := do
  let program ← MonadExcept.ofExcept ((Program.decode s.chip.layout (← w.read path)).mapError Failure.decode)
  print (Session.logLine s.quiet s!"Loaded {program.length} instructions from {path}")
  let m ← MonadExcept.ofExcept ((Machine.build s.chip program).mapError fun f => Failure.settings (.invalid (.chip f)))
  let m ← w.loadImage s a.host "host rows" Machine.loadHost m
  let m ← w.loadImage s a.weights "weight tiles" Machine.loadWeights m
  let tracePath := if s.traceFile.isEmpty then none else some s.traceFile
  if let some path := tracePath then
    if !w.canCreate (Text.Path.join w.root path) then throw (.unwritable path)
  return {
    session := { machine := m, limit := s.maxCycles, quiet := s.quiet, trace := tracePath.map fun _ => #[] }
    stepMode := s.stepMode
    tracePath
    dumpPath := a.dumpHost }

end World

/-- What a run has come to before its session begins: it is over, or there is a session to conduct. -/
inductive Start
  | over (output : String) (failure : Option Failure)
  | running (output : String) (run : Run)

/-- Everything up to the session. The settings are shown, or the program is loaded if one is given. -/
def start (w : World) (a : Arguments) : Start :=
  let work : Work (Option Run) := do
    let s ← w.settings a
    if a.dumpConfig then
      match s.document? with
      | some text => print text; return none
      | none => throw .settingsTooLarge
    else
      match a.program with
      | some path => return some (← w.launch a s path)
      | none => return none
  match (work.run "").run with
  | (.error failure, output) => .over output (some failure)
  | (.ok none, output) => .over output none
  | (.ok (some run), output) => .running output run

/-! ## The session and after it -/

namespace Run

/-- The log line with which the session begins. -/
def opening (r : Run) : String :=
  Session.logLine r.session.quiet <|
    if r.stepMode then "Step mode - Enter steps one cycle, 'si N' steps N, 'c' continues, 'p' prints, 'q' quits"
    else "Continuous mode"

/-- The session on `input`, which only step mode reads. -/
def conduct (r : Run) (input : List Char) : Session.Conversation :=
  if r.stepMode then r.session.converse ((Session.lines input).map Session.edited)
  else
    let (session, result) := r.session.run
    ⟨session, "", [], result⟩

/-- The bytes of a trace, line by line. -/
def traceBytes (lines : Array String) : List UInt8 :=
  (String.join (lines.toList.map (· ++ "\n"))).toUTF8.toList

end Run

/-- How a run went: what it printed, why it failed if it did, the refused lines, and the files it wrote in turn. -/
structure Outcome where
  output : String := ""
  failure : Option Failure := none
  refusals : List Request.Refusal := []
  written : List (String × List UInt8) := []

/-- The end of a run: the trace is written in any case, and after a halt come the report and the host memory. -/
def Run.finish (w : World) (r : Run) (session : Session) (result : Except Fault Summary) : Outcome :=
  let place := Text.Path.join w.root
  let trace := match r.tracePath, session.trace with
    | some path, some lines => [(place path, traceBytes lines)]
    | _, _ => []
  match result with
  | .error fault => { failure := some (.fault fault), written := trace }
  | .ok summary =>
    let report := Report.text session.machine summary
    match r.dumpPath with
    | none => { output := report, written := trace }
    | some path =>
      if w.canCreate (place path) then
        { output := report ++ Session.logLine session.quiet s!"Host memory written to {path}"
          written := trace ++ [(place path, session.machine.dumpHost)] }
      else { output := report, failure := some (.unwritable path), written := trace }

/-- A whole run on input that is known in advance. -/
def execute (w : World) (a : Arguments) (input : List Char) : Outcome :=
  match start w a with
  | .over output failure => { output, failure }
  | .running output run =>
    let c := run.conduct input
    let outcome := run.finish w c.session c.result
    { outcome with output := output ++ run.opening ++ c.output ++ outcome.output, refusals := c.refusals }

end Systolic.CommandLine
