import Systolic.Machine.Snapshot
import Systolic.Proofs.Occupancy.Reachable

/-!
# Operations on a machine

Whoever owns a machine ticks it, runs it, resets it and writes into its memories, in any order. `Machine.observe` is all
that shows of such a use: what every operation answers, with the counters and a snapshot of the machine behind it. Every
machine that operations lead to from power-on is reachable (`Machine.Reachable.performAll`).
-/

namespace Systolic

inductive Operation
  | tick
  /-- Run to the halt, for at most `limit` cycles. -/
  | run (limit : Nat)
  | reset
  | poke (p : Poke)

namespace Machine

/-- A machine at power-on that finds the given memories. -/
def powerOnWith (chip : Chip) (program : Program) (memories : Memories) : Machine :=
  { powerOn chip program with memories }

/-- What an operation answers. -/
inductive Answer
  | ticked (result : Except Fault CycleEvents)
  | ran (result : Except Fault Summary)
  | done

/-- The machine after an operation, and the answer. -/
def perform (m : Machine) : Operation → Machine × Answer
  | .tick => (m.ticked, .ticked (m.tick.map (·.2)))
  | .run limit => ((m.run limit).1, .ran (m.run limit).2)
  | .reset => (m.reset, .done)
  | .poke p => (m.poke p, .done)

/-- The machine after several operations. -/
def performAll (m : Machine) (ops : List Operation) : Machine := ops.foldl (fun m op => (m.perform op).1) m

/-- What shows of an operation. -/
structure Observation where
  answer : Answer
  summary : Summary
  snapshot : Snapshot

/-- What shows of several operations, one after the other. -/
def observe (m : Machine) : List Operation → List Observation
  | [] => []
  | op :: ops =>
    ⟨(m.perform op).2, (m.perform op).1.summary, (m.perform op).1.snapshot⟩ :: (m.perform op).1.observe ops

theorem performAll_cons (m : Machine) (op : Operation) (ops : List Operation) :
    m.performAll (op :: ops) = (m.perform op).1.performAll ops := rfl

/-! ## Runs are ticks -/

/-- A run leaves a halted machine, or one whose cycles are used up, as it is. It stops where a tick fails and else goes
on with the machine after the tick. -/
theorem runFor_fst (limit budget : Nat) (m : Machine) : (runFor limit (budget + 1) m).1 =
    if m.halted ∨ m.tick.isOk = false then m else (runFor limit budget m.ticked).1 := by
  rw [runFor, ticked]
  by_cases hh : m.halted = true
  · simp [hh]
  · cases htick : m.tick with
    | error fault => simp [hh, Except.isOk, Except.toBool]
    | ok s => simp [hh, Except.isOk, Except.toBool]

theorem runFor_zero (limit : Nat) (m : Machine) : (runFor limit 0 m).1 = m := by
  rw [runFor]
  split <;> rfl

/-- What every tick keeps, a run keeps. -/
theorem runFor_induction {P : Machine → Prop} (htick : ∀ m, P m → P m.ticked) (limit budget : Nat) {m : Machine}
    (h : P m) : P (runFor limit budget m).1 := by
  induction budget generalizing m with
  | zero => rwa [runFor_zero]
  | succ budget ih =>
    rw [runFor_fst]
    split
    · exact h
    · exact ih (htick m h)

/-! ## Reachable machines -/

variable {chip : Chip} {program : Program} {m : Machine}

theorem Reachable.perform (h : Reachable chip program m) (op : Operation) : Reachable chip program (m.perform op).1 := by
  cases op with
  | tick => exact h.tick
  | run limit => exact runFor_induction (fun _ hm => hm.tick) limit limit h
  | reset => exact h.reset
  | poke p => exact h.poke p

theorem Reachable.performAll (h : Reachable chip program m) (ops : List Operation) :
    Reachable chip program (m.performAll ops) := by
  induction ops generalizing m with
  | nil => exact h
  | cons op ops ih => exact ih (h.perform op)

end Machine

end Systolic
