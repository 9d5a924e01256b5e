import Systolic.Instruction.Text
import Systolic.Machine.Basic
import Systolic.Text.Align

/-!
# Cycle traces

One line for each cycle, with the busy counters and the queue as they stand after its edge: a JSON object for the trace
file, aligned columns for step mode.
-/

namespace Systolic.Trace

/-- A JSON object from its members. -/
def object (members : List (String × String)) : String :=
  "\x7b" ++ ",".intercalate (members.map fun (key, value) => s!"\"{key}\":{value}") ++ "\x7d"

def array (values : List String) : String := "[" ++ ",".intercalate values ++ "]"

/-- A JSON string; the texts of a trace need no escapes. -/
def quoted (s : String) : String := s!"\"{s}\""

def nullable : Option String → String
  | some s => s
  | none => "null"

def busyObject (b : Busy) : String :=
  object [("matrix", toString b.matrix), ("activate", toString b.activate), ("host", toString b.host),
    ("weights", toString b.weights)]

/-- The trace line of the cycle that led to `after`. -/
def line (e : CycleEvents) (after : Machine) : String :=
  object [
    ("cycle", toString e.cycle),
    ("pc", toString e.pc),
    ("dispatched", nullable (e.dispatched.map fun i => quoted i.describe)),
    ("stalled", toString e.stalled),
    ("redirect", nullable (e.redirect.map toString)),
    ("busy", busyObject after.busy),
    ("fifo_occupancy", toString after.queued),
    ("hazards", array (e.hazards.map fun h => quoted h.name))]

def busyText (b : Busy) : String :=
  s!"BusyCounters \x7b matrix: {b.matrix}, activate: {b.activate}, host: {b.host}, weights: {b.weights} \x7d"

/-- The step-mode line of the cycle that led to `after`, followed by a line for each hazard. -/
def columns (e : CycleEvents) (after : Machine) : String :=
  let dispatched := (e.dispatched.map (·.describe)).getD "-"
  let stall := if e.stalled then " (stall)" else ""
  s!"cycle {Text.right 6 (toString e.cycle)}  pc {Text.right 4 (toString e.pc)}  {dispatched}{stall}  " ++
    s!"busy {busyText after.busy}  fifo {after.queued}\n" ++
    String.join (e.hazards.map fun h => s!"  hazard: {h.message}\n")

end Systolic.Trace
