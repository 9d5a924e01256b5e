import Systolic.CommandLine.Run

/-!
# The program

The thin layer around `CommandLine.Run` that reads the files a run can ask for, talks to the terminal and writes the
results.
-/

namespace Systolic.CommandLine

/-- The names of the variables that can set something. -/
def variableNames : List String :=
  let inSection (name : String) (fields : List String) := fields.map fun field => s!"TPUSIM__{name}__{field}"
  inSection "TPU" ["MATRIX_SIZE", "DATA_WIDTH", "ACC_WIDTH", "UB_ROWS", "ACC_ROWS", "HOST_ROWS", "WEIGHT_TILES",
    "BURST_BYTES", "DRAM_LATENCY", "HAZARD_POLICY"] ++
  inSection "TPU__LAYOUT" ["OPCODE_BYTES", "FLAGS_BYTES", "LENGTH_BYTES", "HOST_ADDR_BYTES", "UB_ADDR_BYTES"] ++
  inSection "SIMULATION" ["QUIET", "STEP_MODE", "TRACE_FILE", "MAX_CYCLES"]

/-- The paths of all files that a run may read. -/
def inputPaths (root : String) (a : Arguments) : List String :=
  let given := [a.program, a.host, a.weights].filterMap id
  given.map (Text.Path.join root) ++ (a.config.map (World.configPaths root)).getD []

def readVariable (name : String) : IO (Option (String × String)) := do
  return (← IO.getEnv name).map (name, ·)

def readFile (path : String) : IO (Option (String × List UInt8)) := do
  try return some (path, (← IO.FS.readBinFile path).toList)
  catch _ => return none

def surroundings (a : Arguments) : IO World := do
  let root := (← IO.currentDir).toString
  let env ← variableNames.filterMapM readVariable
  let files ← (inputPaths root a).filterMapM readFile
  return { root, env, file? := (files.lookup ·), canCreate := fun _ => true }

/-- Report a failure; the answer is the exit code. -/
def fail (message : String) : IO UInt32 := do
  IO.eprintln s!"tpusim: {message}"
  return 1

/-- Write files in turn, up to the first that cannot be written. -/
def writeFiles : List (String × List UInt8) → IO (Option Failure)
  | [] => return none
  | (path, bytes) :: rest => do
    try IO.FS.writeBinFile path ⟨bytes.toArray⟩
    catch _ => return some (.unwritable path)
    writeFiles rest

/-- Answer the lines of the terminal until the session ends. -/
partial def converse (input : IO.FS.Stream) (s : Session) : IO (Session × Except Fault Summary) := do
  let line ← input.getLine
  if line.isEmpty then return (s, .ok s.machine.summary)
  let text := line.toList
  let text := if text.getLast? = some '\n' then text.dropLast else text
  match Request.parse (Session.edited text) with
  | .error refusal =>
    IO.eprintln s!"Error: {refusal.message}"
    converse input s
  | .ok request =>
    let reply := s.answer request
    IO.print reply.output
    match reply.ended with
    | some result => return (reply.session, result)
    | none => converse input reply.session

def conduct (w : World) (run : Run) : IO UInt32 := do
  if let some path := run.tracePath then
    if let some failure ← writeFiles [(Text.Path.join w.root path, [])] then return ← fail failure.message
  IO.print run.opening
  let (session, result) ← if run.stepMode then converse (← IO.getStdin) run.session else pure run.session.run
  let outcome := run.finish w session result
  let unwritten ← writeFiles outcome.written
  let outcome := if unwritten.isSome then run.finish { w with canCreate := fun _ => false } session result else outcome
  IO.print outcome.output
  match outcome.failure with
  | some failure => fail failure.message
  | none => return 0

def perform (a : Arguments) : IO UInt32 := do
  let w ← surroundings a
  match start w a with
  | .over output failure =>
    IO.print output
    match failure with
    | some failure => fail failure.message
    | none => return 0
  | .running output run =>
    IO.print output
    conduct w run

end Systolic.CommandLine

open Systolic.CommandLine in
def main (args : List String) : IO UInt32 := do
  match Arguments.parse args with
  | .error misuse =>
    IO.eprintln s!"error: {misuse.message}\n\nUsage: tpusim [OPTIONS]\n\nFor more information, try '--help'."
    return 2
  | .ok .help => IO.print helpText; return 0
  | .ok .version => IO.print versionText; return 0
  | .ok (.run a) => perform a
