import Systolic.Pipeline.ControlChain
import Systolic.Pipeline.SkewLines
import Systolic.Proofs.Clocked.Delayed

/-!
# Skewed rows and their control

The skew lines from power-on, with one row or none pushed in every cycle: element `r` of a row leaves `r + 1` cycles
later (`lanes_shown`), its control `N + 1` cycles later (`control_shown`). The hops of the accumulators are another line of
registers: column `c` acts on what column 0 acted on `c` cycles ago (`ControlChain.at?_delayed`), and behind the skew lines
on the control of the row that was pushed `N + 1 + c` cycles ago (`ControlChain.at?_shown`).
-/

namespace Systolic

namespace SkewLines

/-- The lines in front of `size` array rows in cycle `t`. -/
def trace (size : Nat) (rows : Nat → Option MatrixRow) : Nat → SkewLines
  | 0 => idle size
  | t + 1 => ((trace size rows t).step (rows t)).1

/-- What leaves the lines in cycle `t`. -/
def shown (size : Nat) (rows : Nat → Option MatrixRow) (t : Nat) : Output := ((trace size rows t).step (rows t)).2

variable (size : Nat) (rows : Nat → Option MatrixRow)

theorem lanes_trace (t : Nat) : (trace size rows t).lanes =
    (List.range size).map fun r => DelayLine.trace (r + 1) (fun u => entering (rows u) r) t := by
  induction t with
  | zero => rfl
  | succ t ih =>
    simp only [trace, step, ih]
    apply List.ext_getElem
    · simp
    · intro r h1 h2
      simp [DelayLine.trace]

theorem line_trace (t : Nat) :
    (trace size rows t).control = DelayLine.trace (size + 1) (fun u => .ofOption ((rows u).map (·.control))) t := by
  induction t with
  | zero => rfl
  | succ t ih => simp only [trace, step, ih, DelayLine.trace]

/-- Lane `r` shows element `r` of the row that was pushed `r + 1` cycles ago. -/
theorem lanes_shown (t : Nat) : (shown size rows t).lanes =
    (List.range size).map fun r => delayed (r + 1) (fun u => entering (rows u) r) t := by
  simp only [shown, step, lanes_trace]
  apply List.ext_getElem
  · simp
  · intro r h1 h2
    simp [DelayLine.output_trace (r + 1) (fun u => entering (rows u) r)]

theorem lane_shown {r : Nat} (hr : r < size) (t : Nat) :
    (shown size rows t).lanes.getD r {} = delayed (r + 1) (fun u => entering (rows u) r) t := by
  simp [lanes_shown, List.getD_eq_getElem?_getD, hr]

/-- The control that leaves belongs to the row that was pushed `N + 1` cycles ago. -/
theorem control_shown (t : Nat) :
    (shown size rows t).control = delayed (size + 1) (fun u => .ofOption ((rows u).map (·.control))) t := by
  simp only [shown, step, line_trace]
  exact DelayLine.output_trace (size + 1) (fun u => Wire.ofOption ((rows u).map (·.control))) t

end SkewLines

namespace ControlChain

/-- After a cycle, a column acts on what its left neighbour has just acted on. -/
theorem at?_succ {chain next : ControlChain} {control : Wire AccControl}
    (h : next.hops = (control :: chain.hops).dropLast) (arriving : Wire AccControl) {c : Nat}
    (hc : c < chain.hops.length) : next.at? arriving (c + 1) = chain.at? control c := by
  have hhop : ((control :: chain.hops).dropLast)[c]? = (control :: chain.hops)[c]? := by
    rw [List.getElem?_dropLast, if_pos (by simpa using hc)]
  rw [at?, at?, List.getElem?_cons_succ, h, hhop]

variable (chain : Nat → ControlChain) (hidle : ∀ w ∈ (chain 0).hops, w.valid = false)
include hidle

/-- The hops delay the control by one cycle for every column, whatever values are left on them at first. -/
theorem at?_delayed {control : Nat → Wire AccControl}
    (hnext : ∀ t, (chain (t + 1)).hops = (control t :: (chain t).hops).dropLast) {c : Nat}
    (hc : c ≤ (chain 0).hops.length) (t : Nat) :
    (chain t).at? (control t) c = delayed c (fun u => (control u).get?) t := by
  have hlength : ∀ t, (chain t).hops.length = (chain 0).hops.length := by
    intro t
    induction t with
    | zero => rfl
    | succ t ih => simpa [hnext] using ih
  induction c generalizing t with
  | zero => simp [at?]
  | succ c ih =>
    cases t with
    | zero =>
      have hw := hidle _ (List.getElem_mem hc)
      rw [delayed_succ_zero, at?, List.getElem?_cons_succ, List.getElem?_eq_getElem hc, Option.bind_some, Wire.get?, hw]
      rfl
    | succ t =>
      rw [at?_succ (hnext t) _ (by rw [hlength t]; exact hc), ih (Nat.le_of_succ_le hc), delayed_succ_succ]

/-- **Control behind the skew lines.** Column `c` acts on the control of the row that was pushed `N + 1 + c` cycles
ago. -/
theorem at?_shown {size : Nat} {rows : Nat → Option MatrixRow}
    (hnext : ∀ t, (chain (t + 1)).hops = ((SkewLines.shown size rows t).control :: (chain t).hops).dropLast) {c : Nat}
    (hc : c ≤ (chain 0).hops.length) (t : Nat) :
    (chain t).at? (SkewLines.shown size rows t).control c =
      delayed (size + 1 + c) (fun u => (rows u).map (·.control)) t := by
  have hcontrol : (fun u => (SkewLines.shown size rows u).control.get?) =
      delayed (size + 1) fun u => (rows u).map (·.control) := by
    funext u
    rw [SkewLines.control_shown, map_delayed (fun w : Wire AccControl => w.get?) rfl]
    simp only [Wire.get?_ofOption]
  rw [at?_delayed chain hidle hnext hc, hcontrol, delayed_delayed, Nat.add_comm c]

end ControlChain

end Systolic
