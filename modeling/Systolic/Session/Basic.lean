import Systolic.Machine.Report
import Systolic.Machine.Trace
import Systolic.Session.Request

/-!
# Sessions

A session drives a machine to its halt, either in one go or as step-mode requests ask for it, and records a trace line
for every complete cycle. The cycle limit counts the machine's cycles from power-on.
-/

namespace Systolic

structure Session where
  machine : Machine
  /-- The cycle in which a run that has not halted fails. -/
  limit : Nat
  /-- No log lines. -/
  quiet : Bool := false
  /-- The trace so far, if one is kept. -/
  trace : Option (Array String) := none

namespace Session

/-- A line of the log on standard output. -/
def logLine (quiet : Bool) (text : String) : String :=
  if quiet then "" else s!"\x1b[34m[Log]\x1b[0m {text}\n"

/-- One cycle, with its trace line. -/
def step (s : Session) : Except Fault (Session × CycleEvents) :=
  match s.machine.tick with
  | .error fault => .error fault
  | .ok (next, events) =>
    .ok ({ s with machine := next, trace := s.trace.map (·.push (Trace.line events next)) }, events)

/-- Cycles until the machine halts, at most `budget` of them. -/
def runFor : Nat → Session → Session × Except Fault Summary
  | budget, s =>
    if s.machine.halted then (s, .ok s.machine.summary)
    else
      match budget with
      | 0 => (s, .error (.cycleLimit s.limit))
      | budget + 1 =>
        match s.step with
        | .error fault => (s, .error fault)
        | .ok (next, _) => runFor budget next

/-- Run until the machine halts or the limit is reached. -/
def run (s : Session) : Session × Except Fault Summary := runFor (s.limit - s.machine.cycle) s

/-! ## Step mode -/

/-- What a request led to. -/
structure Reply where
  session : Session
  /-- Standard output. -/
  output : String := ""
  /-- How the session ended, if it did. -/
  ended : Option (Except Fault Summary) := none

/-- Up to `n` cycles, as long as the machine runs. -/
def stepFor : Nat → Session → String → Reply
  | 0, s, output => ⟨s, output, none⟩
  | n + 1, s, output =>
    if s.machine.halted then ⟨s, output, none⟩
    else if s.limit ≤ s.machine.cycle then ⟨s, output, some (.error (.cycleLimit s.limit))⟩
    else
      match s.step with
      | .error fault => ⟨s, output, some (.error fault)⟩
      | .ok (next, events) => stepFor n next (output ++ Trace.columns events next.machine)

/-- A machine that has halted ends the session. -/
def Reply.settle (r : Reply) : Reply :=
  match r.ended with
  | some _ => r
  | none => if r.session.machine.halted then { r with ended := some (.ok r.session.machine.summary) } else r

def answer (s : Session) : Request → Reply
  | .step n => (stepFor n s "").settle
  | .continue =>
    let (next, result) := s.run
    ⟨next, logLine s.quiet "Continuous mode", some result⟩
  | .print => ⟨s, Report.text s.machine s.machine.summary, none⟩
  | .quit => ⟨s, "", some (.ok s.machine.summary)⟩

end Session

end Systolic
