import Systolic.Proofs.Course.Idle
import Systolic.Proofs.Course.Waiting

/-!
# Commands that settle

A command that meets idle units, with a `SYNC` or a `HLT` behind it, has the machine to itself (`Begins`), and the
machine is idle again when the busy time of the command is over (`Settled`). In between the command does in one cycle
after the other what the reference does at once: transfers (`Begins.readHost`, `Begins.writeHost`, `Begins.placeJump`),
weight reads (`Begins.readWeights`) and activations (`Begins.activate`, `Begins.redirect`).
-/

namespace Systolic.Course

variable (C : Course)

/-- Nothing is under way, and the next instruction can be dispatched. An activation without rows may have been issued. -/
structure Idle (t : Nat) : Prop where
  halted : (C.sequencer t).halted = false
  busy : (C.sequencer t).busy = {}
  issue : ∀ c, C.issue t = some c → ∃ a, c = .activate a ∧ a.length = 0
  units : C.UnitsIdle t

/-- The command that is issued in cycle `e` finds every unit idle, and behind it an instruction that waits for it. -/
structure Begins (e : Nat) (c : Command) : Prop where
  issue : C.issue e = some c
  units : C.UnitsIdle e
  halted : (C.sequencer e).halted = false
  busy : (C.sequencer e).busy = Sequencer.charge C.chip {} c
  fits : c.SpanFits C.chip
  waits : (C.program.fetch (C.sequencer e).pc).opcode.waits = true

/-- For `n` cycles no command follows the one of cycle `e`. -/
def Undisturbed (e n : Nat) : Prop := ∀ j, 0 < j → j < n → C.issue (e + j) = none

/-- The machine is idle in cycle `t`, with this program counter and these memories, and nothing has been dispatched since
cycle `e`. -/
structure Settled (e t : Nat) (pc : UInt64) (pad host : RowStore) (acc : AccStore) : Prop where
  later : e ≤ t
  idle : C.Idle t
  dispatched : ∀ u, e ≤ u → u < t → C.dispatched u = none
  pc : (C.sequencer t).pc = pc
  pad : (C.memories t).pad = pad
  host : (C.memories t).host = host
  acc : (C.memories t).acc = acc

/-- What a command leaves to the activation unit, the row source and the host link: nothing. -/
def Passive (t : Nat) : Prop := ∀ c, C.issue t = some c →
  HostLink.takes c = false ∧ c.multiplication? = none ∧ ∀ a, c = .activate a → a.length = 0

variable {C}

theorem Idle.passive {t : Nat} (h : C.Idle t) : C.Passive t := by
  intro c hc
  obtain ⟨a, rfl, ha⟩ := h.issue c hc
  refine ⟨rfl, rfl, fun b hb => ?_⟩
  cases hb
  exact ha

theorem Passive.multiplication? {t : Nat} (h : C.Passive t) : C.multiplication? t = none := by
  unfold Course.multiplication?
  cases hc : C.issue t with
  | none => rfl
  | some c => exact (h c hc).2.1

/-! ## Cycles in which nothing happens -/

/-- Idle units that get no command stay idle, and leave the memories alone. -/
theorem UnitsIdle.stay (hclosed : C.Closed) {t n : Nat} (h : C.UnitsIdle t) (hp : ∀ j < n, C.Passive (t + j)) :
    C.UnitsIdle (t + n) ∧ (C.memories (t + n)).pad = (C.memories t).pad ∧
      (C.memories (t + n)).host = (C.memories t).host ∧ (C.memories (t + n)).acc = (C.memories t).acc := by
  obtain ⟨hact, hacts⟩ := act_idle h.act fun j hj a ha => (hp j hj _ ha).2.2 a rfl
  obtain ⟨hrows, hno⟩ := rows_idle h.rows fun j hj => (hp j hj).multiplication?
  obtain ⟨hlink, hlinks⟩ := link_idle h.link fun j hj c hc => (hp j hj c hc).1
  refine ⟨⟨hact, hrows, hlink, h.drained.mono hno⟩, ?_, ?_, ?_⟩
  · exact pad_eq hclosed (fun j hj => by rw [hacts j hj]) fun j hj => (hlinks j hj).1
  · exact host_eq hclosed fun j hj => (hlinks j hj).2
  · exact acc_of_drained h.drained hno

theorem Idle.act {t : Nat} (h : C.Idle t) : C.act t = {} :=
  (act_idle (n := 1) h.units.act fun j hj a ha => by
    obtain rfl : j = 0 := by omega
    exact (h.passive _ ha).2.2 a rfl).2 0 Nat.one_pos

/-! ## The busy time of a command -/

theorem Held.undisturbed {e k : Nat} (h : C.Held e k) : C.Undisturbed e k :=
  fun j h0 hj => h.issue j h0 (Nat.le_of_lt hj)

section Begins

variable {e : Nat} {c : Command} (h : C.Begins e c)
include h

theorem Begins.longest : (C.sequencer e).busy.longest = c.span C.chip := by
  rw [h.busy, Sequencer.longest_charge h.fits]

/-- The machine is idle once the sequencer has waited long enough, if the units are. -/
theorem Begins.settled (hheld : C.Held e (c.span C.chip)) (hunits : C.UnitsIdle (e + c.span C.chip))
    (hpos : c.span C.chip = 0 → ∃ a, c = .activate a ∧ a.length = 0) :
    C.Settled e (e + c.span C.chip) (C.sequencer e).pc (C.memories (e + c.span C.chip)).pad
      (C.memories (e + c.span C.chip)).host (C.memories (e + c.span C.chip)).acc := by
  refine ⟨Nat.le_add_right _ _, ⟨hheld.halted, Busy.eq_idle ?_, fun b hb => ?_, hunits⟩, fun u hu hut => ?_, hheld.pc,
    rfl, rfl, rfl⟩
  · rw [hheld.longest, h.longest, Nat.sub_self]
  · rcases Nat.eq_zero_or_pos (c.span C.chip) with hzero | hlt
    · rw [hzero, Nat.add_zero, h.issue] at hb
      cases hb
      exact hpos hzero
    · rw [hheld.issue _ hlt (Nat.le_refl _)] at hb
      cases hb
  · have hquiet := hheld.dispatched (u - e) (by omega)
    rwa [Nat.add_sub_cancel' hu] at hquiet

/-- The only command of an undisturbed time is its first one. -/
theorem Begins.issued {n j : Nat} (hn : C.Undisturbed e n) (hj : j < n) {b : Command} (hb : C.issue (e + j) = some b) :
    b = c := by
  rcases Nat.eq_zero_or_pos j with rfl | hpos
  · rw [Nat.add_zero, h.issue] at hb
    exact (Option.some.inj hb).symm
  · rw [hn j hpos hj] at hb
    cases hb

/-- A command for another unit leaves the activation unit idle. -/
theorem Begins.acts {n : Nat} (hn : C.Undisturbed e n) (hc : ∀ a, c ≠ .activate a) :
    C.actJob (e + n) = none ∧ ∀ j < n, C.act (e + j) = {} :=
  act_idle h.units.act fun _ hj a ha => absurd (h.issued hn hj ha).symm (hc a)

/-- Nothing is pushed for a command that is no multiplication. -/
theorem Begins.rows {n : Nat} (hn : C.Undisturbed e n) (hm : c.multiplication? = none) :
    C.rowJob (e + n) = none ∧ ∀ j < n, C.row? (e + j) = none := by
  refine rows_idle h.units.rows fun j hj => ?_
  unfold multiplication?
  cases hb : C.issue (e + j) with
  | none => rfl
  | some b =>
    obtain rfl := h.issued hn hj hb
    exact hm

/-- The host link stays idle during a command for another unit. -/
theorem Begins.link {n : Nat} (hn : C.Undisturbed e n) (hc : HostLink.takes c = false) : C.LinkIdle (e + n) ∧
    ∀ j < n, (C.transferred (e + j)).padWrite = none ∧ (C.transferred (e + j)).hostWrite = none :=
  link_idle h.units.link fun _ hj _ hb => h.issued hn hj hb ▸ hc

/-- The sequencer waits for the whole busy time of a command for another unit than the activation unit. -/
theorem Begins.held (hc : ∀ a, c ≠ .activate a) : C.Held e (c.span C.chip) := by
  have hheld := Course.held h.waits h.halted (fun k _ hk => by
    rw [(h.acts (n := k + 1) (fun j h0 hj => hk j h0 (by omega)) hc).2 k (Nat.lt_succ_self k)]
    exact ⟨rfl, rfl⟩) _ (Nat.le_refl _)
  rwa [h.longest] at hheld

/-- A command for the host link settles as the link does. -/
theorem Begins.transfer (hc : HostLink.takes c = true) (hpos : 0 < c.span C.chip) {pad host : RowStore}
    (hlink : C.Held e (c.span C.chip) → (∀ j < c.span C.chip, C.act (e + j) = {}) →
      (C.memories (e + c.span C.chip)).pad = pad ∧ (C.memories (e + c.span C.chip)).host = host ∧
        C.LinkIdle (e + c.span C.chip)) :
    C.Settled e (e + c.span C.chip) (C.sequencer e).pc pad host (C.memories e).acc := by
  have hother : ∀ a, c ≠ .activate a := fun a ha => by rw [ha] at hc; cases hc
  have hm : c.multiplication? = none := by cases c <;> first | rfl | cases hc
  have hheld := h.held hother
  obtain ⟨hact, hacts⟩ := h.acts hheld.undisturbed hother
  obtain ⟨hrows, hno⟩ := h.rows hheld.undisturbed hm
  obtain ⟨hpad, hhost, hidle⟩ := hlink hheld hacts
  have hs := h.settled hheld ⟨hact, hrows, hidle, h.units.drained.mono hno⟩ fun hzero => by omega
  rwa [hpad, hhost, acc_of_drained h.units.drained hno] at hs

end Begins

/-! ## Transfers and weight reads -/

section Commands

variable (hclosed : C.Closed) {e : Nat}
include hclosed

theorem Begins.readHost {T : Transfer} (h : C.Begins e (.readHost T)) :
    C.Settled e (e + (T.length.toNat + 1)) (C.sequencer e).pc
      (Sequential.copyRows (C.memories e).host T.hostAddr T.padAddr (C.memories e).pad T.length.toNat)
      (C.memories e).host (C.memories e).acc := by
  refine h.transfer rfl (Nat.succ_pos _) fun hheld hacts => ?_
  have hrows := read_rows hclosed h.units.link h.issue
    (fun k hk => by
      rw [Nat.add_assoc, Nat.add_comm 1]
      exact hheld.issue (k + 1) (Nat.succ_pos k) (Nat.le_succ_of_le hk))
    fun k hk => by rw [hacts k (Nat.lt_succ_of_le hk)]
  rwa [Nat.add_assoc, Nat.add_comm 1] at hrows

theorem Begins.writeHost {T : Transfer} (h : C.Begins e (.writeHost T)) :
    C.Settled e (e + (T.length.toNat + 1)) (C.sequencer e).pc (C.memories e).pad
      (Sequential.copyRows (C.memories e).pad T.padAddr T.hostAddr (C.memories e).host T.length.toNat)
      (C.memories e).acc := by
  refine h.transfer rfl (Nat.succ_pos _) fun hheld hacts => ?_
  have hrows := write_rows hclosed h.units.link h.issue
    (fun k hk => by
      rw [Nat.add_assoc, Nat.add_comm 1]
      exact hheld.issue (k + 1) (Nat.succ_pos k) (Nat.le_succ_of_le hk))
    fun k hk => by rw [hacts k (Nat.lt_succ_of_le hk)]
  rwa [Nat.add_assoc, Nat.add_comm 1] at hrows

theorem Begins.placeJump {target addr : UInt64} (h : C.Begins e (.placeJump target addr)) :
    C.Settled e (e + 2) (C.sequencer e).pc ((C.memories e).pad.write addr (HostLink.jumpRow C.chip target))
      (C.memories e).host (C.memories e).acc := by
  have hlen : (Command.placeJump target addr).span C.chip = 2 := rfl
  refine h.transfer rfl (Nat.succ_pos _) fun hheld hacts => ?_
  rw [hlen] at hheld hacts
  have hfirst : C.act e = {} := hacts 0 (by omega)
  exact place_jump hclosed h.units.link h.issue (hheld.issue 1 Nat.one_pos (by omega)) (by rw [hfirst])
    (by rw [hacts 1 (by omega)])

theorem Begins.readWeights {tile : UInt64} (h : C.Begins e (.readWeights tile)) :
    C.Settled e (e + C.chip.weightSpan) (C.sequencer e).pc (C.memories e).pad (C.memories e).host
      (C.memories e).acc := by
  have hheld := h.held fun a ha => by cases ha
  obtain ⟨hunits, hpad, hhost, hacc⟩ := h.units.stay hclosed fun j hj c hc => by
    obtain rfl := h.issued hheld.undisturbed hj hc
    exact ⟨rfl, rfl, fun a ha => by cases ha⟩
  have hs := h.settled hheld hunits fun hzero => by
    simp only [Command.span, Chip.weightSpan, queueDepth] at hzero
    omega
  rwa [hpad, hhost, hacc] at hs

/-! ## Activations -/

variable {a : ActivationRun}

omit hclosed in
/-- An activation that does not redirect turns one row in each cycle. -/
theorem Begins.act_run (h : C.Begins e (.activate a))
    (hr : 0 < a.length.toNat → (Sequential.outcome C.chip (C.memories e).acc a 0).redirect? a.pc = none) :
    ∀ k, (∀ j, 0 < j → j ≤ k → C.issue (e + j) = none) → C.actJob? (e + k) = Activator.jobAt a k ∧
      C.act (e + k) = { write :=
        if k < a.length.toNat then Sequential.rowWrite C.chip (C.memories (e + k)).acc a k else none } ∧
      C.actJob (e + k + 1) = Activator.jobAt a (k + 1) := by
  have hlater : ∀ k, k < a.length.toNat →
      (Sequential.outcome C.chip (C.memories (e + k)).acc a k).redirect? a.pc = none := by
    intro k hk
    cases k with
    | zero => exact hr hk
    | succ k => exact Outcome.redirect?_later _ _ _ _
  intro k
  induction k with
  | zero =>
    intro _
    have hjob : C.actJob? e = Activator.jobAt a 0 := by
      rw [actJob?, h.issue]
      exact Activator.jobAt_zero a _
    exact ⟨hjob, act_of_job hjob (hlater 0)⟩
  | succ k ih =>
    intro hno
    have hprev := (ih fun j h0 hj => hno j h0 (by omega)).2.2
    have hjob : C.actJob? (e + (k + 1)) = Activator.jobAt a (k + 1) := by
      rw [actJob?, hno (k + 1) (Nat.succ_pos k) (Nat.le_refl _)]
      exact Activator.job?_jobAt hprev
    exact ⟨hjob, act_of_job hjob (hlater (k + 1))⟩

/-- What the rows of an activation leave in the scratchpad. -/
theorem Begins.pad_activate (h : C.Begins e (.activate a)) (hheld : C.Held e a.length.toNat)
    (hr : 0 < a.length.toNat → (Sequential.outcome C.chip (C.memories e).acc a 0).redirect? a.pc = none) :
    ∀ k ≤ a.length.toNat, (C.memories (e + k)).pad =
      Sequential.activateRows C.chip (C.memories e).acc a (C.memories e).pad k := by
  obtain ⟨-, hno⟩ := h.rows hheld.undisturbed rfl
  obtain ⟨-, hlinks⟩ := h.link hheld.undisturbed rfl
  intro k
  induction k with
  | zero => exact fun _ => rfl
  | succ k ih =>
    intro hk
    have hact := (h.act_run hr k fun j h0 hj => hheld.issue j h0 (by omega)).2.1
    have hacc : (C.memories (e + k)).acc = (C.memories e).acc :=
      acc_of_drained h.units.drained fun j hj => hno j (Nat.lt_trans hj hk)
    rw [if_pos (show k < a.length.toNat by omega)] at hact
    rw [← Nat.add_assoc, pad_succ hclosed, hact, (hlinks k hk).1, ih (by omega), hacc]
    rfl

/-- An activation writes its rows one by one. -/
theorem Begins.activate (h : C.Begins e (.activate a))
    (hr : 0 < a.length.toNat → (Sequential.outcome C.chip (C.memories e).acc a 0).redirect? a.pc = none) :
    C.Settled e (e + a.length.toNat) (C.sequencer e).pc
      (Sequential.activateRows C.chip (C.memories e).acc a (C.memories e).pad a.length.toNat)
      (C.memories e).host (C.memories e).acc := by
  have hlen : (Command.activate a).span C.chip = a.length.toNat := rfl
  have hrun := h.act_run hr
  have hheld : C.Held e a.length.toNat := by
    have hh := Course.held h.waits h.halted (fun k _ hk => by
      rw [(hrun k hk).2.1]
      exact ⟨rfl, rfl⟩) _ (Nat.le_refl _)
    rwa [h.longest] at hh
  obtain ⟨hrows, hno⟩ := h.rows hheld.undisturbed rfl
  obtain ⟨hlink, hlinks⟩ := h.link hheld.undisturbed rfl
  have hjob : C.actJob (e + a.length.toNat) = none := by
    cases hn : a.length.toNat with
    | zero => exact h.units.act
    | succ k =>
      have hnext := (hrun k fun j h0 hj => hheld.issue j h0 (by omega)).2.2
      rw [← Nat.add_assoc, hnext, Activator.jobAt, if_neg (by omega)]
  have hs := h.settled hheld ⟨hjob, hrows, hlink, h.units.drained.mono hno⟩ fun hzero =>
    ⟨a, rfl, UInt64.toNat_inj.1 hzero⟩
  have hhost := host_eq hclosed fun j hj => (hlinks j hj).2
  rwa [hlen, hhost, acc_of_drained h.units.drained hno, h.pad_activate hclosed hheld hr _ (Nat.le_refl _)] at hs

/-- A branch or a jump moves the program counter in its first cycle. -/
theorem Begins.redirect {target : UInt64} (h : C.Begins e (.activate a)) (hlen : 0 < a.length.toNat)
    (hr : (Sequential.outcome C.chip (C.memories e).acc a 0).redirect? a.pc = some target) :
    C.Settled e (e + 1) target (C.memories e).pad (C.memories e).host (C.memories e).acc := by
  have hjob : C.actJob? e = Activator.jobAt a 0 := by
    rw [actJob?, h.issue]
    exact Activator.jobAt_zero a _
  obtain ⟨hact, hnext⟩ := act_of_redirect hjob hlen hr
  have hone : C.Undisturbed e 1 := fun j h0 hj => absurd hj (by omega)
  obtain ⟨hrows, hno⟩ := h.rows hone rfl
  obtain ⟨hlink, hlinks⟩ := h.link hone rfl
  have hnone : C.dispatched e = none := dispatched_of_waits h.waits (by rw [h.longest]; exact hlen)
  have hstep := (Sequencer.step_of_none ((dispatched_eq e).symm.trans hnone)).1
  have hsees : (C.sees e).redirect = some target ∧ (C.sees e).resolved = true := by
    rw [sees, hact]
    exact ⟨rfl, rfl⟩
  rw [← sequencer_succ, hsees.1, hsees.2] at hstep
  have hunits : C.UnitsIdle (e + 1) := ⟨hnext, hrows, hlink, h.units.drained.mono hno⟩
  refine ⟨Nat.le_succ e, ⟨?_, ?_, fun c hc => ?_, hunits⟩, fun u hu hut => ?_, ?_, ?_, ?_,
    acc_of_drained h.units.drained hno⟩
  · rw [hstep]
    exact h.halted
  · rw [hstep]
    simp only [Sequencer.countDown, h.busy]
    rfl
  · rw [Course.issue, hstep] at hc
    cases hc
  · obtain rfl : u = e := by omega
    exact hnone
  · rw [hstep]
    rfl
  · rw [pad_succ hclosed, hact, show (C.transferred e).padWrite = none from (hlinks 0 Nat.one_pos).1]
    rfl
  · exact host_eq hclosed fun j hj => (hlinks j hj).2

end Commands

end Systolic.Course
