import Systolic.Proofs.Occupancy.Reachable
import Systolic.Proofs.Word.Wrap

/-!
# The path of a program

A run is followed with the list of what it has dispatched (`Machine.Logged`). Where an instruction leads is fixed by the
instruction itself and, for an activation, by the accumulator row that it reads first (`Dispatch.next?`). A program
counter that a redirect overrides never competes with a dispatch: while an activation may still redirect, it is the last
instruction dispatched (`Machine.Pending`), and its busy counter holds everything back. At any other time the program
counter is where the last instruction leads to (`Machine.Decided`). One cycle takes the one into the other, so every
instruction is dispatched on the path (`Machine.Logged.following`).
-/

namespace Systolic

/-! ## Where an instruction leads -/

/-- An instruction that has been dispatched. -/
structure Dispatch where
  pc : UInt64
  instruction : Instruction
  /-- The accumulators as they stand at the start of the next cycle. -/
  acc : AccStore

namespace Dispatch

/-- The address of the instruction that is dispatched next. Nothing follows a `HLT`. An activation that has rows may carry
a tag in the last element of its first row: with `1` it branches, by element 0 if the element before the tag differs from
zero and by element 1 otherwise; with `4` it jumps to element 1. -/
def next? (chip : Chip) (d : Dispatch) : Option UInt64 :=
  match d.instruction.opcode with
  | .halt => none
  | .activate =>
    let row := d.acc.readRow d.instruction.memAddr
    let tag := row.getD (chip.size - 1) 0
    if d.instruction.length = 0 then some (d.pc + 1)
    else if tag = 1 then
      some (d.pc + 1 + (if row.getD (chip.size - 2) 0 ≠ 0 then row.getD 0 0 else row.getD 1 0).toUInt64)
    else if tag = 4 then some (.ofNat ((row.getD 1 0).toInt % 2 ^ chip.dataWidth).toNat)
    else some (d.pc + 1)
  | _ => some (d.pc + 1)

/-- The activation that a dispatch issues. -/
def run (d : Dispatch) : ActivationRun :=
  ⟨d.instruction.memAddr, d.instruction.padAddr, d.instruction.length, d.instruction.activation, d.pc⟩

/-- Where the next instruction is dispatched after those of `log`, the last one first. A program starts at address 0. -/
def expected (chip : Chip) : List Dispatch → Option UInt64
  | [] => some 0
  | d :: _ => d.next? chip

/-- Every instruction of `log` is the one that the program has where the one before it leads to. -/
def OnPath (chip : Chip) (program : Program) : List Dispatch → Prop
  | [] => True
  | d :: log => OnPath chip program log ∧ expected chip log = some d.pc ∧ d.instruction = program.fetch d.pc

end Dispatch

namespace Machine

/-- What a tick dispatches, as it is logged. -/
def dispatch? (m : Machine) : Option Dispatch := m.dispatched?.map fun i => ⟨m.pc, i, m.ticked.memories.acc⟩

/-- A reachable machine with the list of what has been dispatched since power-on or the last reset, the last one
first. -/
inductive Logged (chip : Chip) (program : Program) : Machine → List Dispatch → Prop
  | build {m : Machine} (h : Machine.build chip program = .ok m) : Logged chip program m []
  | tick {m : Machine} {log : List Dispatch} (h : Logged chip program m log) :
      Logged chip program m.ticked (m.dispatch?.toList ++ log)
  | reset {m : Machine} {log : List Dispatch} (h : Logged chip program m log) : Logged chip program m.reset []
  | poke {m : Machine} {log : List Dispatch} (h : Logged chip program m log) (p : Poke) :
      Logged chip program (m.poke p) log

end Machine

/-! ## The first row of an activation -/

theorem Tag.ofCode?_eq_some_iff {v : Word} {t : Tag} : ofCode? v = some t ↔ v = t.code := by
  constructor
  · intro h
    have := List.find?_some h
    exact (beq_iff_eq.1 this).symm
  · rintro rfl
    exact ofCode?_code t

/-- Where a first row redirects to. -/
theorem Outcome.redirect?_first (chip : Chip) (f : Activation) (row : Row) (pc : UInt64) :
    (decode chip f true row).redirect? pc =
      if row.getD (row.length - 1) 0 = 1 then
        some (pc + 1 + (if row.getD (row.length - 2) 0 ≠ 0 then row.getD 0 0 else row.getD 1 0).toUInt64)
      else if row.getD (row.length - 1) 0 = 4 then some (Word.low chip.dataWidth (row.getD 1 0))
      else none := by
  unfold decode
  dsimp only
  generalize row.getD (row.length - 1) 0 = tag
  by_cases hb : tag = 1
  · subst hb
    have hadd : ∀ w : Word, pc + (w + 1).toUInt64 = pc + 1 + w.toUInt64 := by
      intro w
      rw [Int64.toUInt64_add, UInt64.add_comm w.toUInt64, UInt64.add_assoc]
      rfl
    rw [show Tag.ofCode? 1 = some .branch from rfl, if_pos rfl]
    simp only [redirect?, hadd, bne_iff_ne]
  · by_cases hj : tag = 4
    · subst hj
      rw [show Tag.ofCode? 4 = some .jump from rfl, if_neg hb, if_pos rfl]
      rfl
    · have hbranch : Tag.ofCode? tag ≠ some .branch := mt Tag.ofCode?_eq_some_iff.1 hb
      have hjump : Tag.ofCode? tag ≠ some .jump := mt Tag.ofCode?_eq_some_iff.1 hj
      rw [if_neg hb, if_neg hj]
      cases ht : Tag.ofCode? tag with
      | none => rfl
      | some t => cases t <;> first | rfl | exact absurd ht hbranch | exact absurd ht hjump

namespace Activator

variable {chip : Chip} {u : Activator} {store : AccStore}

/-- An activation that is issued decides in its first row. -/
theorem redirect_first {a : ActivationRun} (ha : a.length ≠ 0) : (u.step chip (some a) store).2.redirect =
    (Outcome.decode chip a.function true (store.readRow a.accAddr)).redirect? a.pc := by
  have hjob : u.job? (some a) = some (Job.ofCommand a) := by simp [job?, Option.filter, Job.ofCommand, ha]
  rw [step_eq, hjob, Option.map_some, Option.getD_some, Job.step]
  simp only [Job.ofCommand]
  cases (Outcome.decode chip a.function true (store.readRow a.accAddr)).redirect? a.pc <;> rfl

/-- Later rows do not redirect, and neither does an activation of no rows. -/
theorem redirect_later {issue : Option ActivationRun} (hlater : ∀ j, u.job = some j → j.first = false)
    (hissue : ∀ a, issue = some a → a.length = 0) : (u.step chip issue store).2.redirect = none := by
  rw [step_eq]
  cases hj : u.job? issue with
  | none => rfl
  | some j =>
    have hfirst : j.first = false := by
      obtain ⟨hor, hne⟩ := Option.filter_eq_some_iff.1 hj
      cases issue with
      | none => exact hlater j hor
      | some a =>
        obtain rfl := Option.some.inj hor
        simp [Job.ofCommand, hissue a rfl] at hne
    rw [Option.map_some, Option.getD_some, Job.step, hfirst, Outcome.redirect?_later]

end Activator

namespace Machine

open Sequencer

variable {m : Machine} {d : Dispatch} {log : List Dispatch}

/-! ## While an activation may redirect -/

/-- The activation that has just been dispatched reaches its unit, and may redirect the program counter. -/
structure Pending (m : Machine) (d : Dispatch) : Prop where
  opcode : d.instruction.opcode = .activate
  length : d.instruction.length ≠ 0
  issue : m.issue = some (.activate d.run)
  acc : d.acc = m.memories.acc
  pc : m.pc = d.pc + 1
  halted : m.halted = false

/-- The program counter stands where the last instruction leads to. -/
structure Decided (m : Machine) (log : List Dispatch) : Prop where
  issue : ∀ a, m.issue = some (.activate a) → a.length = 0
  pc : Dispatch.expected m.chip log = if m.halted then none else some m.pc

/-- Writes from outside leave the activation as it is. -/
theorem Pending.poke (h : m.Pending d) (p : Poke) : (m.poke p).Pending d := by
  cases p <;> exact ⟨h.opcode, h.length, h.issue, h.acc, h.pc, h.halted⟩

theorem Decided.poke (h : m.Decided log) (p : Poke) : (m.poke p).Decided log := by
  cases p <;> exact ⟨h.issue, h.pc⟩

namespace Pending

variable (h : m.Pending d)
include h

/-- The activation has all its rows left. -/
theorem busy_ne (hcount : m.pipeline.Counted m.chip) : m.busy.activate ≠ 0 := by
  have hrows := hcount.activate.rows
  rw [show m.pipeline.sequencer.issue = some (.activate d.run) from h.issue] at hrows
  exact toNat_pos_iff.1 ((hrows.trans (Activator.rowsLeft_some _ _)).symm ▸ toNat_pos_iff.2 h.length)

/-- Its busy counter holds everything back. -/
theorem dispatched (hcount : m.pipeline.Counted m.chip) : m.step.2.dispatched = none := by
  rw [dispatched_step]
  cases hd : (m.pipeline.sequencer.step m.chip m.sees).2.dispatched with
  | none => rfl
  | some i =>
    have hr := (of_dispatched hd).2.2.1
    unfold ready at hr
    rw [Bool.and_eq_true, beq_iff_eq] at hr
    exact absurd hr.1 (h.busy_ne hcount)

/-- The program counter goes where the activation leads to. -/
theorem redirect (hvalid : m.chip.Valid) (hf : m.memories.acc.Fits m.chip.size) :
    d.next? m.chip = some (m.activated.redirect.getD m.pc) := by
  have hactivated : m.activated.redirect =
      (Outcome.decode m.chip d.instruction.activation true
        (m.memories.acc.readRow d.instruction.memAddr)).redirect? d.pc := by
    rw [activated, h.issue]
    exact Activator.redirect_first h.length
  have hwidth : m.chip.dataWidth ≤ 64 := hvalid.dataWidth.2.trans (by decide)
  rw [hactivated, Outcome.redirect?_first, hf.length_readRow, h.pc, Word.low_eq_ofNat hwidth]
  simp only [Dispatch.next?, h.opcode, h.acc, if_neg h.length]
  by_cases hbranch : (m.memories.acc.readRow d.instruction.memAddr).getD (m.chip.size - 1) 0 = 1
  · simp only [if_pos hbranch, Option.getD_some]
  · by_cases hjump : (m.memories.acc.readRow d.instruction.memAddr).getD (m.chip.size - 1) 0 = 4
    · simp only [if_neg hbranch, if_pos hjump, Option.getD_some]
    · simp only [if_neg hbranch, if_neg hjump, Option.getD_none]

/-- One cycle decides. -/
theorem step (hvalid : m.chip.Valid) (hf : m.memories.acc.Fits m.chip.size) (hcount : m.pipeline.Counted m.chip) :
    m.step.1.Decided (d :: log) := by
  have hnone := h.dispatched hcount
  rw [dispatched_step] at hnone
  have hseq := (step_of_none hnone).1
  refine ⟨fun a ha => ?_, ?_⟩
  · rw [Machine.issue, sequencer_step, hseq] at ha
    cases ha
  · have hhalted : m.step.1.halted = m.halted := by
      rw [Machine.halted, sequencer_step, hseq]
      rfl
    have hpc : m.step.1.pc = m.activated.redirect.getD m.pc := by
      rw [Machine.pc, sequencer_step, hseq]
      rfl
    rw [hhalted, h.halted, hpc]
    exact h.redirect hvalid hf

end Pending

/-! ## While nothing may redirect -/

namespace Decided

variable (h : m.Decided log) (hcount : m.pipeline.Counted m.chip)
include h hcount

theorem redirect : m.activated.redirect = none := by
  refine Activator.redirect_later (fun j hj => (hcount.activate.later j hj).1) fun a ha => ?_
  obtain ⟨c, hc, hact⟩ := Option.bind_eq_some_iff.1 ha
  cases c <;> cases hact
  exact h.issue a hc

/-- A cycle that dispatches nothing leaves the program counter where it is. -/
theorem step_of_none (hnone : m.step.2.dispatched = none) : m.step.1.Decided log := by
  rw [dispatched_step] at hnone
  have hseq := (Sequencer.step_of_none hnone).1
  have hredirect : m.sees.redirect = none := h.redirect hcount
  refine ⟨fun a ha => ?_, ?_⟩
  · rw [Machine.issue, sequencer_step, hseq] at ha
    cases ha
  · rw [Machine.halted, Machine.pc, sequencer_step, hseq, hredirect]
    exact h.pc

/-- An instruction that is dispatched stands where the one before it leads to. What it leads to itself is decided, or it
is an activation that may redirect. -/
theorem step_of_some {i : Instruction} (hi : m.step.2.dispatched = some i) :
    Dispatch.expected m.chip log = some m.pc ∧ i = m.program.fetch m.pc ∧
      (m.step.1.Pending ⟨m.pc, i, m.step.1.memories.acc⟩ ∨
        m.step.1.Decided (⟨m.pc, i, m.step.1.memories.acc⟩ :: log)) := by
  rw [dispatched_step] at hi
  obtain ⟨hhalted, hfetch, -, hseq⟩ := of_dispatched hi
  have hexpected := h.pc
  rw [show m.halted = false from hhalted] at hexpected
  refine ⟨hexpected, hfetch, ?_⟩
  have hredirect : m.sees.redirect = none := h.redirect hcount
  rw [hredirect, Option.getD_none] at hseq
  have hissue : m.step.1.issue = command? m.chip m.memories.pad m.pc i := by
    rw [Machine.issue, sequencer_step, hseq]
    rfl
  have hpc : m.step.1.pc = if i.opcode = .halt then m.pc else m.pc + 1 := by
    rw [Machine.pc, sequencer_step, hseq]
    rfl
  have hhalt : m.step.1.halted = decide (i.opcode = .halt) := by
    rw [Machine.halted, sequencer_step, hseq]
    rfl
  by_cases hrun : i.opcode = .activate ∧ i.length ≠ 0
  · obtain ⟨hop, hlen⟩ := hrun
    refine Or.inl ⟨hop, hlen, ?_, rfl, ?_, ?_⟩
    · rw [hissue]
      simp only [command?, hop]
      rfl
    · rw [hpc, hop]
      rfl
    · rw [hhalt, hop]
      rfl
  · refine Or.inr ⟨fun a ha => ?_, ?_⟩
    · rw [hissue] at ha
      by_contra hlen
      obtain ⟨hop, rfl⟩ := of_command? ha
      exact hrun ⟨hop, hlen⟩
    · rw [hhalt, hpc]
      cases hop : i.opcode <;> simp [Dispatch.expected, Dispatch.next?, hop]
      intro hlen
      exact absurd ⟨hop, hlen⟩ hrun

end Decided

/-! ## Runs -/

/-- What holds of every machine with its log. -/
structure Following (chip : Chip) (program : Program) (m : Machine) (log : List Dispatch) : Prop where
  chip_eq : m.chip = chip
  program_eq : m.program = program
  valid : m.chip.Valid
  counted : m.pipeline.Counted m.chip
  fits : m.memories.acc.Fits m.chip.size
  path : Dispatch.OnPath chip program log
  flow : (∃ d rest, log = d :: rest ∧ m.Pending d) ∨ m.Decided log

variable {chip : Chip} {program : Program}

theorem Following.step (h : m.Following chip program log) : m.step.1.Following chip program
    ((m.step.2.dispatched.map fun i => ⟨m.pc, i, m.step.1.memories.acc⟩).toList ++ log) := by
  have hfits : m.step.1.memories.acc.Fits m.step.1.chip.size := by
    rw [acc_step]
    exact h.fits.apply _
  have hcount := counted_step h.counted
  rcases h.flow with ⟨d, rest, rfl, hpending⟩ | hdecided
  · rw [hpending.dispatched h.counted]
    exact ⟨h.chip_eq, h.program_eq, h.valid, hcount, hfits, h.path, Or.inr (hpending.step h.valid h.fits h.counted)⟩
  · cases hi : m.step.2.dispatched with
    | none =>
      exact ⟨h.chip_eq, h.program_eq, h.valid, hcount, hfits, h.path, Or.inr (hdecided.step_of_none h.counted hi)⟩
    | some i =>
      obtain ⟨hexpected, hfetch, hnext⟩ := hdecided.step_of_some h.counted hi
      rw [h.chip_eq] at hexpected
      rw [h.program_eq] at hfetch
      refine ⟨h.chip_eq, h.program_eq, h.valid, hcount, hfits, ⟨h.path, hexpected, hfetch⟩, ?_⟩
      rcases hnext with hpending | hnext
      · exact Or.inl ⟨_, log, rfl, hpending⟩
      · exact Or.inr hnext

/-- A machine that starts over. -/
theorem Following.start (hchip : m.chip = chip) (hprogram : m.program = program) (hvalid : m.chip.Valid)
    (hcount : m.pipeline.Counted m.chip) (hfits : m.memories.acc.Fits m.chip.size) (hseq : m.pipeline.sequencer = {}) :
    m.Following chip program [] := by
  refine ⟨hchip, hprogram, hvalid, hcount, hfits, trivial, Or.inr ⟨fun a ha => ?_, ?_⟩⟩
  · rw [Machine.issue, hseq] at ha
    cases ha
  · rw [Machine.halted, Machine.pc, hseq]
    rfl

theorem Logged.following (h : Logged chip program m log) : m.Following chip program log := by
  induction h with
  | build h =>
    obtain ⟨hvalid, rfl⟩ := of_build h
    exact .start rfl rfl hvalid (Pipeline.covered_idle chip).toCounted (Memories.fits_blank hvalid).acc rfl
  | @tick m log _ ih =>
    rw [dispatch?]
    rcases m.ticked_eq with ⟨hm, hd⟩ | ⟨hm, hd⟩ <;> rw [hd, hm]
    · exact ih.step
    · exact ih
  | reset _ ih =>
    exact .start ih.chip_eq ih.program_eq ih.valid ih.counted.shaped.covered_clear.toCounted ih.fits rfl
  | @poke m log _ p ih =>
    have hflow : (∃ d rest, log = d :: rest ∧ (m.poke p).Pending d) ∨ (m.poke p).Decided log := by
      rcases ih.flow with ⟨d, rest, hlog, hpending⟩ | hdecided
      · exact Or.inl ⟨d, rest, hlog, hpending.poke p⟩
      · exact Or.inr (hdecided.poke p)
    cases p <;> exact ⟨ih.chip_eq, ih.program_eq, ih.valid, ih.counted, ih.fits, ih.path, hflow⟩

/-! ## Nothing waits forever -/

theorem after_step (m : Machine) (n : Nat) : m.step.1.after n = m.after (n + 1) := by
  induction n with
  | zero => rfl
  | succ n ih => rw [after, ih, ← after]

/-- The longest of the counters, the cooldown after a switch included. -/
def longest (m : Machine) : Nat := max m.busy.longest m.pipeline.sequencer.cooldown.toNat

/-- A cycle without a dispatch brings the longest counter down. -/
theorem longest_step (hnone : m.step.2.dispatched = none) : m.step.1.longest ≤ m.longest - 1 := by
  rw [dispatched_step] at hnone
  rw [longest, longest, Machine.busy, sequencer_step, (Sequencer.step_of_none hnone).1, Machine.busy,
    ← Nat.sub_max_sub_right]
  refine max_le_max ?_ (toNat_tickDown _).le
  cases m.sees.resolved with
  | false => exact Busy.longest_countDown.le
  | true =>
    have hle : Busy.longest { m.pipeline.sequencer.busy.countDown with activate := 0 } ≤
        m.pipeline.sequencer.busy.countDown.longest :=
      max_le_max (max_le_max le_rfl (Nat.zero_le _)) le_rfl
    exact hle.trans Busy.longest_countDown.le

/-- A machine that is not halted dispatches an instruction once its counters have run down. -/
theorem dispatched_after (hh : m.halted = false) :
    ∃ n ≤ m.longest, (m.after n).step.2.dispatched.isSome = true := by
  induction hb : m.longest using Nat.strong_induction_on generalizing m with
  | _ b ih =>
    cases hd : m.step.2.dispatched with
    | some i => exact ⟨0, Nat.zero_le _, by rw [after, hd]; rfl⟩
    | none =>
      have hlt : m.step.1.longest < b := by
        have hle := longest_step hd
        by_contra hge
        -- the counters stood at zero already, so the instruction was ready
        have hzero : m.longest = 0 := by omega
        obtain ⟨hbusy, hcooldown⟩ := Nat.max_eq_zero_iff.1 hzero
        have hready := ready_of_idle (Busy.eq_idle hbusy) (UInt64.toNat_inj.1 hcooldown) (m.program.fetch m.pc)
        rw [dispatched_step, dispatched_of_ready hh hready] at hd
        cases hd
      have hhalted : m.step.1.halted = false := by
        rw [dispatched_step] at hd
        rw [Machine.halted, sequencer_step, (Sequencer.step_of_none hd).1]
        exact hh
      obtain ⟨n, hn, hsome⟩ := ih _ hlt hhalted rfl
      rw [after_step] at hsome
      exact ⟨n + 1, by omega, hsome⟩

/-- **Control flow in order.** In every reachable machine with its log:

- the busy counter of the activation unit is the number of rows that the issued or running activation has left;
- in a cycle that redirects the program counter nothing is dispatched, the machine is not halted, and the activation that
  redirects is the last instruction dispatched;
- every instruction was dispatched where the one before it leads to, the first one at address 0;
- nothing follows a `HLT`, and while the machine is not halted another instruction follows.

The counters may have been set to anything: this does not depend on whether the spans of the instructions fit them. -/
theorem Logged.follows_path (h : Logged chip program m log) :
    m.busy.activate.toNat = m.pipeline.activator.rowsLeft (m.issue.bind (·.activation?)) ∧
    (∀ target, m.step.2.redirect = some target → m.step.2.dispatched = none ∧ m.halted = false ∧
      ∃ d rest, log = d :: rest ∧ d.instruction.opcode = .activate ∧ m.issue = some (.activate d.run)) ∧
    Dispatch.OnPath chip program log ∧
    (m.halted = true ↔ Dispatch.expected chip log = none) ∧
    (m.halted = false → ∃ n ≤ m.longest, (m.after n).step.2.dispatched.isSome = true) := by
  have hf := h.following
  refine ⟨hf.counted.activate.rows, ?_, hf.path, ?_, dispatched_after⟩
  · intro target htarget
    rw [redirect_step] at htarget
    rcases hf.flow with ⟨d, rest, rfl, hpending⟩ | hdecided
    · exact ⟨hpending.dispatched hf.counted, hpending.halted, d, rest, rfl, hpending.opcode, hpending.issue⟩
    · rw [hdecided.redirect hf.counted] at htarget
      cases htarget
  · rw [← hf.chip_eq]
    rcases hf.flow with ⟨d, rest, rfl, hpending⟩ | hdecided
    · rw [Dispatch.expected, hpending.redirect hf.valid hf.fits, hpending.halted]
      exact ⟨nofun, nofun⟩
    · rw [hdecided.pc]
      cases m.halted <;> simp

/-- The machine after `n` ticks, with what they have dispatched. -/
def loggedTicks (m : Machine) : Nat → Machine × List Dispatch
  | 0 => (m, [])
  | n + 1 => ((m.loggedTicks n).1.ticked, (m.loggedTicks n).1.dispatch?.toList ++ (m.loggedTicks n).2)

theorem Logged.ticks (h : Logged chip program m []) (n : Nat) :
    Logged chip program (m.loggedTicks n).1 (m.loggedTicks n).2 := by
  induction n with
  | zero => exact h
  | succ n ih => exact ih.tick

/-- A jump row goes through the array and the activation unit: the program leaps over the instruction behind it. -/
def leap : Machine :=
  (powerOn { size := 4, padRows := 1, accRows := 1, hostRows := 1, tiles := 1, latency := 0 }
    ⟨[.placeJump 7 0, .readWeights 0, .sync, (Instruction.multiply 0 0 1).withSwitch, .sync, .activate 0 0 1 .identity,
      .halt, .halt]⟩).poke (.tile 0 [1, 0, 0, 0, 0, 1, 0, 0, 0, 0, 1, 0, 0, 0, 0, 1])

theorem Logged.follows_path_leap : ∃ m log, Logged leap.chip leap.program m log ∧
    log.map (·.pc) = [7, 5, 4, 3, 2, 1, 0] ∧ Dispatch.OnPath leap.chip leap.program log := by
  have hstart : Logged leap.chip leap.program leap [] := (Logged.build rfl).poke _
  have hrun : ∃ m log, Logged leap.chip leap.program m log ∧ log.map (·.pc) = [7, 5, 4, 3, 2, 1, 0] :=
    ⟨_, _, hstart.ticks 40, by decide +kernel⟩
  obtain ⟨m, log, hlogged, hpcs⟩ := hrun
  exact ⟨m, log, hlogged, hpcs, hlogged.follows_path.2.2.1⟩

end Machine

end Systolic
