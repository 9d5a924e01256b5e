import Systolic.Machine.Basic
import Systolic.Text.Align

/-!
# The report of a run

Counters, hazards, then every row of the scratchpad and of the accumulators that differs from zero.
-/

namespace Systolic.Report

/-- A row with its address, as in `ub[   3]: [1, 0, -2, 0]`. -/
def rowLine (label : String) (addr : Nat) (row : Row) : String :=
  let elements := ", ".intercalate (row.map toString)
  s!"  {label}[{Text.right 4 (toString addr)}]: [{elements}]\n"

def hazardLine (e : HazardEvent) : String := s!"  cycle {e.cycle}: {e.hazard.message}\n"

/-- The report of `m` with the counters of `s`. -/
def text (m : Machine) (s : Summary) : String :=
  let hazards := if s.hazards.isEmpty then "" else "hazards:\n" ++ String.join (s.hazards.map hazardLine)
  let rows label (nonzero : List (Nat × Row)) := String.join (nonzero.map fun (addr, row) => rowLine label addr row)
  "\n--- Simulation Report ---\n" ++
    s!"cycles: {s.cycles}  dispatched: {s.dispatched}  stalled: {s.stalls}  pc: {m.pc}  halted: {m.halted}\n" ++
    hazards ++
    "scratchpad:\n" ++ rows "ub" m.memories.pad.nonzeroRows ++
    "accumulators:\n" ++ rows "acc" m.memories.acc.nonzeroRows ++
    "--- End Report ---\n"

end Systolic.Report
