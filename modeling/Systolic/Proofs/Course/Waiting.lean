import Systolic.Proofs.Course.Dispatch

/-!
# Waiting for the units

An idle sequencer dispatches the instruction at the program counter, whichever it is (`dispatched_of_idle`). A `SYNC` or
a `HLT` holds everything back until the longest busy counter has run down: until then the program counter stays, nothing
is dispatched and no command is issued (`held`).
-/

namespace Systolic

namespace Busy

/-- The longest of the busy counters. -/
def longest (b : Busy) : Nat := max (max b.matrix.toNat b.activate.toNat) (max b.host.toNat b.weights.toNat)

variable {b : Busy}

theorem longest_countDown : b.countDown.longest = b.longest - 1 := by
  simp only [longest, countDown, toNat_tickDown, Nat.sub_max_sub_right]

theorem idle_iff : b.idle = true ↔ b.longest = 0 := by
  simp only [idle, longest, Bool.and_eq_true, beq_iff_eq, ← UInt64.toNat_inj, UInt64.toNat_zero]
  omega

theorem eq_idle (h : b.longest = 0) : b = {} := by
  obtain ⟨matrix, activate, host, weights⟩ := b
  simp only [longest] at h
  simp only [mk.injEq, ← UInt64.toNat_inj, UInt64.toNat_zero]
  omega

end Busy

/-- An instruction that is dispatched only when every unit is idle. -/
def Opcode.waits : Opcode → Bool
  | .sync | .halt => true
  | _ => false

namespace Sequencer

variable {chip : Chip} {s : Sequencer} {input : Input}

/-- From idle counters, a command sets the one of its class. -/
theorem longest_charge {c : Command} (hfit : c.SpanFits chip) : (charge chip {} c).longest = c.span chip := by
  have hlongest : (charge chip {} c).longest = c.span chip % 2 ^ 64 := by
    cases c <;> simp [charge, Busy.longest, Command.span, Chip.matrixCycles_eq, Chip.weightCycles, Chip.weightSpan,
      hostCycles, hostSpan, activateCycles]
  rw [hlongest, Nat.mod_eq_of_lt hfit]

/-- The cooldown after a switch does not outlast a multiplication that fits. -/
theorem cooldown_le_step (h : s.cooldown.toNat ≤ s.busy.matrix.toNat)
    (hfit : ∀ m, (s.step chip input).1.issue = some (.multiply m) → chip.matrixSpan m.length < 2 ^ 64) :
    (s.step chip input).1.cooldown.toNat ≤ (s.step chip input).1.busy.matrix.toNat := by
  rw [cooldown_step, (counts_matrix chip).step]
  cases hissue : (s.step chip input).1.issue with
  | none => exact Nat.sub_le_sub_right h 1
  | some c =>
    cases c with
    | multiply m =>
      have hzero : s.busy.matrix.toNat = 0 := UInt64.toNat_inj.2 ((counts_matrix chip).ready (by rw [hissue]; rfl))
      have hset : (some (Command.multiply m)).bind (matrixSet chip) = some (chip.matrixSpan m.length) := rfl
      rw [hset, Option.map_some, Option.getD_some, Nat.mod_eq_of_lt (hfit m hissue)]
      cases hswitch : m.switch with
      | true =>
        have hcool : (some (Command.multiply m)).bind (cooldownSet chip) = some (chip.size + 1) := by
          simp [cooldownSet, Command.multiplication?, Option.filter, hswitch]
        rw [hcool, Option.map_some, Option.getD_some]
        have hle := Nat.mod_le (chip.size + 1) (2 ^ 64)
        simp only [Chip.matrixSpan, drainCycles]
        omega
      | false =>
        have hcool : (some (Command.multiply m)).bind (cooldownSet chip) = none := by
          simp [cooldownSet, Command.multiplication?, Option.filter, hswitch]
        rw [hcool, Option.map_none, Option.getD_none]
        omega
    | _ => exact Nat.sub_le_sub_right h 1

/-- With every counter at zero, every instruction is ready. -/
theorem ready_of_idle (hb : s.busy = {}) (hc : s.cooldown = 0) (i : Instruction) : s.ready i = true := by
  unfold ready
  rw [hb, hc]
  cases i.opcode <;> simp [Busy.idle]

/-- A `SYNC` is not ready before every counter is at zero, and neither is a `HLT`. -/
theorem ready_of_waits {i : Instruction} (hi : i.opcode.waits = true) (hb : 0 < s.busy.longest) : s.ready i = false := by
  have hidle : s.busy.idle = false := by
    rw [← Bool.not_eq_true, Busy.idle_iff]
    omega
  unfold ready
  cases ho : i.opcode with
  | sync | halt => simp only [hidle, Bool.and_false]
  | nop | readHost | writeHost | readWeights | multiply | activate =>
    rw [ho] at hi
    cases hi

end Sequencer

namespace Course

open Sequencer

variable {C : Course}

theorem cooldown_le {t : Nat} (hfit : C.MatrixFit t) :
    (C.sequencer t).cooldown.toNat ≤ (C.sequencer t).busy.matrix.toNat := by
  induction t with
  | zero => rw [sequencer_zero]
  | succ t ih =>
    rw [sequencer_succ]
    refine cooldown_le_step (ih (hfit.mono (Nat.le_succ t))) fun m hm => ?_
    rw [← sequencer_succ] at hm
    obtain ⟨d, i, hd, hi, hc⟩ := exists_dispatched hm
    obtain rfl : t = d := by omega
    obtain ⟨hop, rfl⟩ := of_command? hc
    exact hfit t (Nat.lt_succ_self t) i hi hop

/-! ## Dispatch from an idle sequencer -/

section Idle

variable {t : Nat} (hfit : C.MatrixFit t) (hh : (C.sequencer t).halted = false) (hb : (C.sequencer t).busy = {})
include hfit hh hb

theorem dispatched_of_idle : C.dispatched t = some (C.program.fetch (C.sequencer t).pc) := by
  have hc := cooldown_le hfit
  rw [hb] at hc
  rw [dispatched_eq]
  exact dispatched_of_ready hh (ready_of_idle hb (UInt64.toNat_inj.1 (Nat.le_zero.1 hc)) _)

theorem issue_of_idle : C.issue (t + 1) = command? C.chip (C.memories t).pad (C.sequencer t).pc
    (C.program.fetch (C.sequencer t).pc) :=
  issue_of_dispatched (dispatched_of_idle hfit hh hb)

/-- The sequencer after a dispatch from idle counters. -/
theorem sequencer_of_idle (hact : C.act t = {}) :
    (C.sequencer (t + 1)).pc = (if (C.program.fetch (C.sequencer t).pc).opcode = .halt then (C.sequencer t).pc
        else (C.sequencer t).pc + 1) ∧
      (C.sequencer (t + 1)).halted = decide ((C.program.fetch (C.sequencer t).pc).opcode = .halt) ∧
      (C.sequencer (t + 1)).busy = ((C.issue (t + 1)).map (charge C.chip {})).getD {} := by
  have hd := dispatched_of_idle hfit hh hb
  rw [dispatched_eq] at hd
  have hstep := (of_dispatched hd).2.2.2
  have hsees : C.sees t = { program := C.program, pad := (C.memories t).pad } := by rw [sees, hact]
  have hidle : ((C.sequencer t).countDown (C.sees t).resolved).busy = {} := by
    rw [countDown, hb, hsees]
    rfl
  rw [issue, sequencer_succ]
  refine ⟨?_, ?_, ?_⟩
  · rw [hstep, hsees]
    rfl
  · rw [hstep]
    rfl
  · rw [busy_step, hidle]

end Idle

/-! ## Waiting -/

/-- An instruction that waits for every unit is not dispatched while a counter runs. -/
theorem dispatched_of_waits {t : Nat} (hwait : (C.program.fetch (C.sequencer t).pc).opcode.waits = true)
    (hpos : 0 < (C.sequencer t).busy.longest) : C.dispatched t = none := by
  cases hd : C.dispatched t with
  | none => rfl
  | some i =>
    rw [dispatched_eq] at hd
    obtain ⟨-, hi, hr, -⟩ := of_dispatched hd
    have hop : i.opcode.waits = true := hi ▸ hwait
    rw [ready_of_waits hop hpos] at hr
    cases hr

/-- From cycle `e` on everything has been held back for `k` cycles. -/
structure Held (C : Course) (e k : Nat) : Prop where
  pc : (C.sequencer (e + k)).pc = (C.sequencer e).pc
  halted : (C.sequencer (e + k)).halted = false
  longest : (C.sequencer (e + k)).busy.longest = (C.sequencer e).busy.longest - k
  issue : ∀ j, 0 < j → j ≤ k → C.issue (e + j) = none
  dispatched : ∀ j < k, C.dispatched (e + j) = none

variable {e : Nat} (hwait : (C.program.fetch (C.sequencer e).pc).opcode.waits = true)
include hwait

theorem Held.succ {k : Nat} (h : C.Held e k) (hk : k < (C.sequencer e).busy.longest)
    (hact : (C.act (e + k)).redirect = none ∧ (C.act (e + k)).resolved = false) : C.Held e (k + 1) := by
  have hnone : C.dispatched (e + k) = none := dispatched_of_waits (by rw [h.pc]; exact hwait) (by rw [h.longest]; omega)
  have hstep := (step_of_none ((dispatched_eq (e + k)).symm.trans hnone)).1
  rw [← sequencer_succ, Nat.add_assoc] at hstep
  have hredirect : (C.sees (e + k)).redirect = none := hact.1
  have hresolved : (C.sees (e + k)).resolved = false := hact.2
  rw [hredirect, hresolved] at hstep
  refine ⟨?_, ?_, ?_, ?_, ?_⟩
  · rw [hstep]
    exact h.pc
  · rw [hstep]
    exact h.halted
  · rw [hstep]
    refine Busy.longest_countDown.trans ?_
    rw [h.longest]
    omega
  · intro j h0 hj
    rcases Nat.lt_or_eq_of_le hj with hlt | rfl
    · exact h.issue j h0 (by omega)
    · rw [Course.issue, hstep]
      rfl
  · intro j hj
    rcases Nat.lt_or_eq_of_le (Nat.le_of_lt_succ hj) with hlt | rfl
    · exact h.dispatched j hlt
    · exact hnone

/-- **Waiting.** A `SYNC` or a `HLT` holds everything back until the busy counters have run down, if the activation unit stays
quiet on the program counter. -/
theorem held (hh : (C.sequencer e).halted = false)
    (hact : ∀ k < (C.sequencer e).busy.longest, (∀ j, 0 < j → j ≤ k → C.issue (e + j) = none) →
      (C.act (e + k)).redirect = none ∧ (C.act (e + k)).resolved = false) :
    ∀ k ≤ (C.sequencer e).busy.longest, C.Held e k := by
  intro k
  induction k with
  | zero =>
    intro _
    exact ⟨rfl, hh, rfl, fun j h0 hj => by omega, fun j hj => absurd hj (Nat.not_lt_zero j)⟩
  | succ k ih =>
    intro hk
    have h := ih (by omega)
    exact h.succ hwait hk (hact k hk h.issue)

end Course

end Systolic
