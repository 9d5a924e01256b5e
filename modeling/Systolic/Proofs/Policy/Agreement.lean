import Systolic.Proofs.Policy.InPlace

/-!
# Hazard policies

A cycle does not depend on the hazard policy (`Machine.step_under`); only a tick does. Under `ignore` and `warn` every
tick is a cycle (`ticks_under`), under `fail` every tick up to the first hazard is (`ticks_under_fail`), and from then on
none (`ticks_of_error`). `Machine.policies_agree` compares the runs of one machine under the three policies.
-/

namespace Systolic

/-- The same chip under another policy. -/
def Chip.under (chip : Chip) (policy : HazardPolicy) : Chip := { chip with policy }

/-- Only a tile that is lost at the queue comes after another hazard of a cycle. -/
theorem Mesh.hazard?_ne (mesh : Mesh) (lanes : List Lane) : mesh.hazard? lanes ≠ some .queueOverflow := by
  unfold hazard?
  split
  · split
    · simp
    · split
      · simp
      · simp
  · simp

namespace Machine

/-- The same machine under another policy. -/
def under (m : Machine) (policy : HazardPolicy) : Machine := { m with chip := m.chip.under policy }

/-- The machine after `n` ticks; a tick that fails leaves it as it is. -/
def ticks (m : Machine) : Nat → Machine
  | 0 => m
  | n + 1 => (m.ticks n).ticked

variable {m : Machine} {p q : HazardPolicy}

/-! ## One cycle -/

theorem halted_under (m : Machine) (p : HazardPolicy) : (m.under p).halted = m.halted := rfl

theorem step_under (m : Machine) (p : HazardPolicy) : (m.under p).step = (m.step.1.under p, m.step.2) := rfl

theorem tick_under (hp : p ≠ .fail) : (m.under p).tick = .ok (m.step.1.under p, m.step.2) := by
  rw [tick_of_ne_fail (m := m.under p) hp, step_under]

theorem tick_under_of_quiet (h : m.step.2.hazards = []) (p : HazardPolicy) :
    (m.under p).tick = .ok (m.step.1.under p, m.step.2) := by
  rw [tick_of_quiet (m := m.under p) h, step_under]

theorem ticked_of_tick {next : Machine} {events : CycleEvents} (h : m.tick = .ok (next, events)) : m.ticked = next := by
  rw [ticked, h]

theorem ticked_of_error {fault : Fault} (h : m.tick = .error fault) : m.ticked = m := by
  rw [ticked, h]

/-- With several hazards in one cycle the first one is the array's. -/
theorem tail_eq_nil_of_overflow {zs : List Hazard} (h : m.step.2.hazards = .queueOverflow :: zs) : zs = [] := by
  have hmesh : m.product.hazard ≠ some .queueOverflow := m.pipeline.mesh.hazard?_ne m.skewed.lanes
  rw [hazards_step] at h
  cases hz : m.product.hazard with
  | none =>
    rw [hz] at h
    split at h
    · simpa using h.symm
    · simp at h
  | some z =>
    rw [hz] at h hmesh
    simp only [Option.toList_some, List.singleton_append, List.cons.injEq] at h
    exact absurd (congrArg some h.1) hmesh

/-! ## Several cycles -/

theorem cycle_after (m : Machine) (n : Nat) : (m.after n).cycle = m.cycle + n := by
  induction n with
  | zero => rfl
  | succ n ih =>
    change (m.after n).cycle + 1 = m.cycle + (n + 1)
    rw [ih, Nat.add_assoc]

/-- No hazard has been recorded exactly if there was none in any cycle. -/
theorem hazards_after_eq_nil_iff (h : m.summary.hazards = []) (n : Nat) :
    (m.after n).summary.hazards = [] ↔ ∀ k < n, (m.after k).step.2.hazards = [] := by
  induction n with
  | zero => simp [after, h]
  | succ n ih =>
    have hadd : (m.after (n + 1)).summary.hazards = (m.after n).summary.hazards ++
        (m.after n).step.2.hazards.map (⟨(m.after n).step.2.cycle, ·⟩) := rfl
    rw [hadd, List.append_eq_nil_iff, List.map_eq_nil_iff, ih]
    constructor
    · rintro ⟨hbefore, hlast⟩ k hk
      rcases Nat.lt_or_eq_of_le (Nat.le_of_lt_succ hk) with hk | rfl
      · exact hbefore k hk
      · exact hlast
    · intro hall
      constructor
      · intro k hk
        exact hall k (Nat.lt_succ_of_lt hk)
      · exact hall n (Nat.lt_succ_self n)

/-- Under a policy that goes on, ticks are cycles. -/
theorem ticks_under (hp : p ≠ .fail) (n : Nat) : (m.under p).ticks n = (m.after n).under p := by
  induction n with
  | zero => rfl
  | succ n ih =>
    rw [ticks, ih]
    exact ticked_of_tick (tick_under hp)

/-- Without hazards, ticks are cycles under `fail` too. -/
theorem ticks_under_fail {n : Nat} (h : ∀ k < n, (m.after k).step.2.hazards = []) :
    (m.under .fail).ticks n = (m.after n).under .fail := by
  induction n with
  | zero => rfl
  | succ n ih =>
    rw [ticks, ih fun k hk => h k (Nat.lt_succ_of_lt hk)]
    exact ticked_of_tick (tick_under_of_quiet (h n (Nat.lt_succ_self n)) .fail)

/-- A machine whose tick fails stays where it is. -/
theorem ticks_of_error {fault : Fault} {k : Nat} (h : (m.ticks k).tick = .error fault) (j : Nat) :
    m.ticks (k + j) = m.ticks k := by
  induction j with
  | zero => rfl
  | succ j ih =>
    rw [← Nat.add_assoc, ticks, ih]
    exact ticked_of_error h

/-! ## Whole uses -/

/-- Policies that go on give runs with the same answer. -/
theorem runFor_under (hp : p ≠ .fail) (hq : q ≠ .fail) (limit budget : Nat) (m : Machine) :
    runFor limit budget (m.under p) =
      ((runFor limit budget (m.under q)).1.under p, (runFor limit budget (m.under q)).2) := by
  induction budget generalizing m with
  | zero =>
    rw [runFor, runFor, halted_under, halted_under]
    split
    · rfl
    · rfl
  | succ budget ih =>
    rw [runFor, runFor, halted_under, halted_under, tick_under hp, tick_under hq]
    split
    · rfl
    · exact ih m.step.1

theorem poke_under (m : Machine) (w : Poke) (p : HazardPolicy) : (m.under p).poke w = (m.poke w).under p := by
  cases w <;> rfl

/-- Policies that go on give the same answer to every operation. -/
theorem perform_under (hp : p ≠ .fail) (hq : q ≠ .fail) (m : Machine) (op : Operation) :
    (m.under p).perform op = (((m.under q).perform op).1.under p, ((m.under q).perform op).2) := by
  cases op with
  | tick =>
    have htick := tick_under (m := m) hp
    have htick' := tick_under (m := m) hq
    simp only [perform, htick, htick', ticked_of_tick htick, ticked_of_tick htick']
    rfl
  | run limit =>
    have hrun := runFor_under hp hq limit limit m
    simp only [perform, run, hrun]
  | reset => rfl
  | poke w =>
    simp only [perform, poke_under]
    rfl

/-- Policies that go on show the same, whatever is done to the machine. -/
theorem observe_under (hp : p ≠ .fail) (hq : q ≠ .fail) (m : Machine) (ops : List Operation) :
    (m.under p).observe ops = (m.under q).observe ops := by
  induction ops generalizing m with
  | nil => rfl
  | cons op ops ih =>
    rw [observe, observe, perform_under hp hq m op]
    have hself : ((m.under q).perform op).1 = ((m.under q).perform op).1.under q := by
      rw [perform_under hq hq m op]
      rfl
    rw [hself, ← ih]
    rfl

/-! ## The first hazard -/

section FirstHazard

variable (hm : m.summary.hazards = [])
include hm

/-- As long as `ignore` has recorded no hazard there has been none. -/
theorem quiet_of_recorded {n : Nat} (hn : ((m.under .ignore).ticks n).summary.hazards = []) :
    ∀ k < n, (m.after k).step.2.hazards = [] := by
  rw [ticks_under (by decide)] at hn
  exact (hazards_after_eq_nil_iff hm n).1 hn

/-- Before the first hazard `fail` goes through the states of `ignore`, with the same events. -/
theorem agree_of_quiet {n : Nat} (hn : ((m.under .ignore).ticks n).summary.hazards = []) :
    (m.under .fail).ticks n = ((m.under .ignore).ticks n).under .fail ∧
    ∀ k < n, ∃ events, ((m.under .ignore).ticks k).tick = .ok ((m.under .ignore).ticks (k + 1), events) ∧
      ((m.under .fail).ticks k).tick = .ok ((m.under .fail).ticks (k + 1), events) := by
  have hbefore := quiet_of_recorded hm hn
  constructor
  · rw [ticks_under_fail hbefore, ticks_under (by decide)]
    rfl
  · intro k hk
    have hquiet := hbefore k hk
    have hfail : ∀ i ≤ n, (m.under .fail).ticks i = (m.after i).under .fail := by
      intro i hi
      apply ticks_under_fail
      intro j hj
      exact hbefore j (by omega)
    refine ⟨(m.after k).step.2, ?_, ?_⟩
    · rw [ticks_under (by decide), ticks_under (by decide), tick_under_of_quiet hquiet]
      rfl
    · rw [hfail k (by omega), hfail (k + 1) hk, tick_under_of_quiet hquiet]
      rfl

/-- At the first hazard `fail` stops for good, in the state that `ignore` had reached. -/
theorem stop_of_hazard {k : Nat} {next : Machine} {events : CycleEvents} {z : Hazard} {zs : List Hazard}
    (hn : ((m.under .ignore).ticks k).summary.hazards = [])
    (htick : ((m.under .ignore).ticks k).tick = .ok (next, events)) (hz : events.hazards = z :: zs) :
    (z = .queueOverflow → zs = []) ∧
    ∀ j, (m.under .fail).ticks (k + j) = ((m.under .ignore).ticks k).under .fail ∧
      ((m.under .fail).ticks (k + j)).tick = .error (.hazard (m.cycle + k) z) ∧
      tickInPlace ((m.under .fail).ticks (k + j)) =
        .error (.hazard (m.cycle + k) z) ((m.under .fail).ticks (k + j)) := by
  have hagree := (agree_of_quiet hm hn).1
  rw [ticks_under (by decide), tick_under (by decide)] at htick
  cases htick
  have herror : ((m.under .fail).ticks k).tick = .error (.hazard (m.cycle + k) z) := by
    have hstep : ((m.after k).under .fail).step.2.hazards = z :: zs := hz
    rw [ticks_under_fail (quiet_of_recorded hm hn), tick_of_fail rfl hstep, ← cycle_after]
    rfl
  constructor
  · rintro rfl
    exact tail_eq_nil_of_overflow hz
  · intro j
    rw [ticks_of_error herror]
    refine ⟨hagree, herror, ?_⟩
    rw [tickInPlace_eq, herror]

end FirstHazard

/-! ## From power-on -/

/-- **Hazard policies agree up to the first hazard, and a tick that fails is atomic.** One chip, program and memories:

- As long as `ignore` has recorded no hazard, `fail` has gone through the same states with the same events.
- If a hazard comes up under `ignore` for the first time, in cycle `k`, every tick under `fail` from then on is the error
  that names the cycle and the first hazard, the array's if there is one, and leaves the machine as it was before `k`.
- `warn` goes through the states of `ignore` and shows the same in every use. -/
theorem policies_agree (chip : Chip) (program : Program) (memories : Memories) :
    let run (policy : HazardPolicy) (n : Nat) : Machine :=
      ((powerOnWith chip program memories).under policy).ticks n
    (∀ n, (run .ignore n).summary.hazards = [] →
      run .fail n = (run .ignore n).under .fail ∧
      ∀ k < n, ∃ events, (run .ignore k).tick = .ok (run .ignore (k + 1), events) ∧
        (run .fail k).tick = .ok (run .fail (k + 1), events)) ∧
    (∀ k next events z zs, (run .ignore k).summary.hazards = [] → (run .ignore k).tick = .ok (next, events) →
      events.hazards = z :: zs →
      (z = .queueOverflow → zs = []) ∧
      ∀ j, run .fail (k + j) = (run .ignore k).under .fail ∧
        (run .fail (k + j)).tick = .error (.hazard k z) ∧
        tickInPlace (run .fail (k + j)) = .error (.hazard k z) (run .fail (k + j))) ∧
    (∀ n, run .warn n = (run .ignore n).under .warn) ∧
    ∀ ops, ((powerOnWith chip program memories).under .warn).observe ops =
      ((powerOnWith chip program memories).under .ignore).observe ops := by
  have hm : (powerOnWith chip program memories).summary.hazards = [] := rfl
  intro run
  refine ⟨?_, ?_, ?_, ?_⟩
  · intro n hn
    exact agree_of_quiet hm hn
  · intro k next events z zs hn htick hz
    have hstop := stop_of_hazard hm hn htick hz
    rw [show (powerOnWith chip program memories).cycle + k = k from Nat.zero_add k] at hstop
    exact hstop
  · intro n
    simp only [run, ticks_under (p := .warn) (by decide), ticks_under (p := .ignore) (by decide)]
    rfl
  · intro ops
    exact observe_under (by decide) (by decide) _ ops

/-- A chip whose first multiplication switches to weights that nobody has loaded. -/
def unstaged : Machine :=
  let chip : Chip := { size := 4, padRows := 1, accRows := 1, hostRows := 1, tiles := 1 }
  powerOnWith chip ⟨[(Instruction.multiply 0 0 1).withSwitch, .halt]⟩ (.blank chip)

theorem policies_agree_unstaged : ((unstaged.under .ignore).ticks 2).summary.hazards = [] ∧
    ((unstaged.under .ignore).ticks 3).summary.hazards = [⟨2, .switchWithoutWeights⟩] ∧
    ∀ j, (unstaged.under .fail).ticks (2 + j) = ((unstaged.under .ignore).ticks 2).under .fail ∧
      ((unstaged.under .fail).ticks (2 + j)).tick = .error (.hazard 2 .switchWithoutWeights) := by
  have hquiet : ((unstaged.under .ignore).ticks 2).summary.hazards = [] := by decide +kernel
  have hhazard : ((unstaged.under .ignore).ticks 2).step.2.hazards = [.switchWithoutWeights] := by decide +kernel
  have htick : ((unstaged.under .ignore).ticks 2).tick = .ok ((unstaged.under .ignore).ticks 2).step :=
    tick_of_ne_fail (by decide)
  refine ⟨hquiet, by decide +kernel, ?_⟩
  intro j
  have hstop := (policies_agree unstaged.chip unstaged.program unstaged.memories).2.1 2 _ _ _ _ hquiet htick hhazard
  exact ⟨(hstop.2 j).1, (hstop.2 j).2.1⟩

end Machine

end Systolic
