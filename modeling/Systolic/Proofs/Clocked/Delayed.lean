import Mathlib.Data.Nat.Count
import Systolic.Clocked.DelayLine

/-!
# Delayed signals

A signal is a function of the cycle. `delayed n f` is the signal `f` behind `n` registers that were idle at power-on;
delays add up (`delayed_delayed`), and an event is counted behind them just as many cycles later (`count_delayed`). A
delay line of `n` registers is a delay by `n` (`output_trace`).
-/

namespace Systolic

variable {α : Type}

/-- What `n` registers show of the signal `f` in cycle `t`. -/
def delayed [Inhabited α] (n : Nat) (f : Nat → α) (t : Nat) : α := if n ≤ t then f (t - n) else default

section Delayed

variable [Inhabited α]

@[simp] theorem delayed_zero (f : Nat → α) : delayed 0 f = f := by
  funext t
  simp [delayed]

theorem delayed_of_le {n t : Nat} (h : n ≤ t) (f : Nat → α) : delayed n f t = f (t - n) := if_pos h

theorem delayed_of_lt {n t : Nat} (h : t < n) (f : Nat → α) : delayed n f t = default := if_neg (by omega)

@[simp] theorem delayed_add (n : Nat) (f : Nat → α) (t : Nat) : delayed n f (t + n) = f t := by
  simp [delayed]

theorem delayed_succ_succ (n : Nat) (f : Nat → α) (t : Nat) : delayed (n + 1) f (t + 1) = delayed n f t := by
  simp [delayed]

@[simp] theorem delayed_succ_zero (n : Nat) (f : Nat → α) : delayed (n + 1) f 0 = default := by
  simp [delayed]

theorem delayed_delayed (m n : Nat) (f : Nat → α) (t : Nat) : delayed m (delayed n f) t = delayed (m + n) f t := by
  by_cases hm : m ≤ t
  · by_cases hn : n ≤ t - m
    · rw [delayed_of_le hm, delayed_of_le hn, delayed_of_le (by omega), Nat.sub_sub]
    · rw [delayed_of_le hm, delayed_of_lt (by omega), delayed_of_lt (by omega)]
  · rw [delayed_of_lt (by omega), delayed_of_lt (by omega)]

/-- A function that keeps the idle value commutes with delays. -/
theorem map_delayed {β : Type} [Inhabited β] (g : α → β) (hg : g default = default) (n : Nat) (f : Nat → α) (t : Nat) :
    g (delayed n f t) = delayed n (fun u => g (f u)) t := by
  by_cases h : n ≤ t
  · rw [delayed_of_le h, delayed_of_le h]
  · rw [delayed_of_lt (by omega), delayed_of_lt (by omega), hg]

end Delayed

/-- A delayed event has been seen as often as the event itself that many cycles earlier. -/
theorem count_delayed (p : Nat → Bool) (n t : Nat) :
    Nat.count (fun u => delayed n p u = true) t = Nat.count (fun u => p u = true) (t - n) := by
  induction t with
  | zero => simp
  | succ t ih =>
    rw [Nat.count_succ, ih]
    by_cases h : n ≤ t
    · rw [delayed_of_le h, show t + 1 - n = t - n + 1 by omega, Nat.count_succ]
    · rw [delayed_of_lt (by omega), show t + 1 - n = 0 by omega, show t - n = 0 by omega]
      simp

namespace DelayLine

variable [Inhabited α]

/-- A line of `n` registers in cycle `t`, with `f` at its input from power-on. -/
def trace (n : Nat) (f : Nat → α) : Nat → DelayLine α
  | 0 => idle n
  | t + 1 => (trace n f t).shift (f t)

@[simp] theorem length_trace (n : Nat) (f : Nat → α) (t : Nat) : (trace n f t).length = n := by
  induction t with
  | zero => simp [trace]
  | succ t ih => simpa [trace] using ih

/-- Register `i` shows its input from `i + 1` cycles ago. -/
theorem getElem?_trace (n : Nat) (f : Nat → α) (t i : Nat) :
    (trace n f t).regs[i]? = if i < n then some (delayed (i + 1) f t) else none := by
  induction t generalizing i with
  | zero => simp [trace, idle, List.getElem?_replicate]
  | succ t ih =>
    rw [trace, getElem?_regs_shift, length_trace]
    by_cases hi : i < n
    · rw [if_pos hi, if_pos hi, delayed_succ_succ]
      cases i with
      | zero => simp
      | succ i => rw [List.getElem?_cons_succ, ih, if_pos (by omega)]
    · rw [if_neg hi, if_neg hi]

/-- A line of `n` registers is a delay by `n` cycles. -/
theorem output_trace (n : Nat) (f : Nat → α) (t : Nat) : (trace n f t).output (f t) = delayed n f t := by
  have hl : (trace n f t).regs.length = n := length_trace n f t
  cases n with
  | zero => rw [output_of_length_eq_zero (length_trace 0 f t), delayed_zero]
  | succ n =>
    rw [output, List.getLast?_eq_getElem?, hl, Nat.add_sub_cancel, getElem?_trace, if_pos (by omega)]
    rfl

end DelayLine

end Systolic
