import Systolic.Proofs.Policy.Agreement
import Systolic.Session.Conversation

/-!
# Drivers

A machine can be driven by a run, by a session in one go, and by a session that answers requests line by line. Each of
these loops looks at the state it has come to: there is a verdict on it (`Machine.verdict?`), with which the loop ends, or
the machine ticks. So all of them end in the state with the first verdict (`Machine.runFor_endsAfter`,
`Session.runFor_endsAfter`), and a conversation that is left early has gone part of the way (`Session.converse_goes`).
`drivers_agree` puts together what follows from power-on, with the trace and the counters.
-/

namespace Systolic

/-- The fault as another limit would be quoted in it. -/
def Fault.quoting (limit : Nat) : Fault → Fault
  | .hazard cycle h => .hazard cycle h
  | .cycleLimit _ => .cycleLimit limit

/-- Cycles that a request asks for by their number. -/
def Request.cycles : Request → Nat
  | .step n => n
  | .continue | .print | .quit => 0

/-- Every member of an object but the last is followed by a comma. -/
theorem Trace.object_cons (key value : String) (next : String × String) (members : List (String × String)) :
    ∃ rest, Trace.object ((key, value) :: next :: members) = s!"\x7b\"{key}\":{value}," ++ rest := by
  simp only [object, List.map_cons, String.intercalate_cons_cons, String.append_assoc]
  exact ⟨_, rfl⟩

/-- A trace line begins with the number of its cycle. -/
theorem Trace.line_starts (e : CycleEvents) (after : Machine) :
    ∃ rest, Trace.line e after = s!"\x7b\"cycle\":{e.cycle}," ++ rest :=
  object_cons "cycle" (toString e.cycle) _ _

namespace Machine

variable {m : Machine}

/-! ## Ticks -/

theorem ticks_ticks (m : Machine) (n k : Nat) : (m.ticks n).ticks k = m.ticks (n + k) := by
  induction k with
  | zero => rfl
  | succ k ih => exact congrArg ticked ih

/-- The trace line of tick `n`. -/
def traceLine (m : Machine) (n : Nat) : String := Trace.line (m.ticks n).step.2 (m.ticks (n + 1))

theorem traceLine_ticks (m : Machine) (n : Nat) : (m.ticks n).traceLine = fun k => m.traceLine (n + k) := by
  funext k
  rw [traceLine, traceLine, ticks_ticks, ticks_ticks, Nat.add_assoc]

/-! ## Verdicts -/

/-- How a run up to cycle `limit` ends in state `m`, if it ends there; `quoted` is what its error quotes as the limit. -/
def verdict? (quoted limit : Nat) (m : Machine) : Option (Except Fault Summary) :=
  if m.halted then some (.ok m.summary)
  else if limit ≤ m.cycle then some (.error (.cycleLimit quoted))
  else
    match m.tick with
    | .error fault => some (.error fault)
    | .ok _ => none

/-- A run up to cycle `limit` goes through `n` cycles at least. -/
def Goes (quoted limit : Nat) (m : Machine) (n : Nat) : Prop := ∀ i < n, (m.ticks i).verdict? quoted limit = none

/-- A run up to cycle `limit` goes through `n` cycles and ends with `result`. -/
structure EndsAfter (quoted limit : Nat) (m : Machine) (n : Nat) (result : Except Fault Summary) : Prop where
  goes : m.Goes quoted limit n
  ends : (m.ticks n).verdict? quoted limit = some result

variable {quoted limit n k : Nat} {result : Except Fault Summary}

theorem verdict?_of_halted (hh : m.halted = true) : m.verdict? quoted limit = some (.ok m.summary) := if_pos hh

theorem verdict?_of_le (hh : m.halted = false) (hle : limit ≤ m.cycle) :
    m.verdict? quoted limit = some (.error (.cycleLimit quoted)) := by
  rw [verdict?, hh, if_neg Bool.false_ne_true, if_pos hle]

theorem verdict?_of_lt (quoted : Nat) (hh : m.halted = false) (hlt : m.cycle < limit) : m.verdict? quoted limit =
    match m.tick with
    | .error fault => some (.error fault)
    | .ok _ => none := by
  rw [verdict?, hh, if_neg Bool.false_ne_true, if_neg (Nat.not_le_of_lt hlt)]

/-- A run that succeeds gives the counters it has come to. -/
theorem eq_summary_of_verdict? {summary : Summary} (h : m.verdict? quoted limit = some (.ok summary)) :
    summary = m.summary := by
  unfold verdict? at h
  split at h
  · injection h with h
    injection h with h
    exact h.symm
  · split at h
    · cases h
    · split at h <;> cases h

/-- A run that fails with the limit has come to it. -/
theorem le_of_verdict? {q : Nat} (h : m.verdict? quoted limit = some (.error (.cycleLimit q))) : limit ≤ m.cycle := by
  unfold verdict? at h
  split at h
  · cases h
  · split at h
    case isTrue hle => exact hle
    case isFalse =>
      rcases m.tick_eq with htick | ⟨-, z, htick⟩ <;> rw [htick] at h <;> cases h

/-- A run that fails with a hazard does so at a tick. -/
theorem tick_of_verdict? {cycle : Nat} {z : Hazard} (h : m.verdict? quoted limit = some (.error (.hazard cycle z))) :
    m.tick = .error (.hazard cycle z) ∧ cycle = m.cycle := by
  unfold verdict? at h
  split at h
  · cases h
  · split at h
    · cases h
    · rcases m.tick_eq with htick | ⟨-, z, htick⟩ <;> rw [htick] at h <;> cases h
      exact ⟨htick, rfl⟩

/-- What is quoted as the limit decides nothing. -/
theorem verdict?_quoting (q : Nat) (m : Machine) :
    m.verdict? q limit = (m.verdict? quoted limit).map (Except.mapError (·.quoting q)) := by
  unfold verdict?
  split
  · rfl
  · split
    · rfl
    · rcases m.tick_eq with htick | ⟨-, z, htick⟩ <;> rw [htick] <;> rfl

/-- A run goes on where the machine is not halted, the limit is not reached and the tick succeeds. -/
theorem verdict?_eq_none_iff :
    m.verdict? quoted limit = none ↔ m.halted = false ∧ m.cycle < limit ∧ m.tick = .ok (m.ticked, m.step.2) := by
  unfold verdict? ticked
  rcases m.tick_eq with htick | ⟨-, z, htick⟩ <;> rw [htick]
  · cases m.halted <;> simp
  · cases m.halted <;> by_cases hle : limit ≤ m.cycle <;> simp [hle]

theorem Goes.zero : m.Goes quoted limit 0 := fun i hi => absurd hi (Nat.not_lt_zero i)

theorem Goes.mono (h : m.Goes quoted limit n) (hk : k ≤ n) : m.Goes quoted limit k := fun i hi => h i (by omega)

/-- More cycles are allowed. -/
theorem Goes.within {q l : Nat} (h : m.Goes quoted limit n) (hl : limit ≤ l) : m.Goes q l n := by
  intro i hi
  obtain ⟨hh, hlt, htick⟩ := verdict?_eq_none_iff.1 (h i hi)
  exact verdict?_eq_none_iff.2 ⟨hh, Nat.lt_of_lt_of_le hlt hl, htick⟩

theorem Goes.add (h : m.Goes quoted limit n) (h' : (m.ticks n).Goes quoted limit k) : m.Goes quoted limit (n + k) := by
  intro i hi
  by_cases hlt : i < n
  · exact h i hlt
  · have hlast := h' (i - n) (by omega)
    rwa [ticks_ticks, Nat.add_sub_cancel' (by omega)] at hlast

theorem Goes.one (h : m.verdict? quoted limit = none) : m.Goes quoted limit 1 := by
  intro i hi
  obtain rfl : i = 0 := by omega
  exact h

/-- The last cycle of a run that goes on. -/
theorem Goes.last (h : m.Goes quoted limit (n + 1)) : (m.ticks n).halted = false ∧ (m.ticks n).cycle < limit ∧
    (m.ticks n).tick = .ok (m.ticks (n + 1), (m.ticks n).step.2) ∧ m.ticks (n + 1) = (m.ticks n).step.1 := by
  obtain ⟨hh, hlt, htick⟩ := verdict?_eq_none_iff.1 (h n (Nat.lt_succ_self n))
  exact ⟨hh, hlt, htick, (of_tick_isOk (by rw [htick]; rfl)).1⟩

/-- As long as a run goes on, its cycles are counted. -/
theorem Goes.cycle (h : m.Goes quoted limit n) : (m.ticks n).cycle = m.cycle + n := by
  induction n with
  | zero => rfl
  | succ n ih =>
    obtain ⟨-, -, -, hstep⟩ := h.last
    rw [hstep, ← Nat.add_assoc, ← ih (h.mono (Nat.le_succ n))]
    rfl

/-- A run does not go beyond its end. -/
theorem EndsAfter.le (h : m.EndsAfter quoted limit n result) (hk : m.Goes quoted limit k) : k ≤ n := by
  by_contra hlt
  have hends := h.ends
  rw [hk n (by omega)] at hends
  cases hends

theorem EndsAfter.unique {result' : Except Fault Summary} (h : m.EndsAfter quoted limit n result)
    (h' : m.EndsAfter quoted limit k result') : n = k ∧ result = result' := by
  obtain rfl : n = k := Nat.le_antisymm (h'.le h.goes) (h.le h'.goes)
  exact ⟨rfl, Option.some.inj (h.ends.symm.trans h'.ends)⟩

/-- What is left of a run that has gone through `n` cycles. -/
theorem EndsAfter.rest (h : m.EndsAfter quoted limit n result) (hk : k ≤ n) :
    (m.ticks k).EndsAfter quoted limit (n - k) result := by
  constructor
  · intro i hi
    rw [ticks_ticks]
    exact h.goes (k + i) (by omega)
  · rw [ticks_ticks, Nat.add_sub_cancel' hk]
    exact h.ends

theorem EndsAfter.after (hk : m.Goes quoted limit k) (h : (m.ticks k).EndsAfter quoted limit n result) :
    m.EndsAfter quoted limit (k + n) result := by
  refine ⟨hk.add h.goes, ?_⟩
  rw [← ticks_ticks]
  exact h.ends

theorem EndsAfter.quoting (h : m.EndsAfter quoted limit n result) (q : Nat) :
    m.EndsAfter q limit n (result.mapError (·.quoting q)) := by
  refine ⟨h.goes.within (Nat.le_refl limit), ?_⟩
  rw [verdict?_quoting q, h.ends]
  rfl

/-- A run that is over at once. -/
theorem EndsAfter.now (h : m.verdict? quoted limit = some result) : m.EndsAfter quoted limit 0 result :=
  ⟨.zero, h⟩

/-- **A run** goes on to the first verdict. -/
theorem runFor_endsAfter {budget : Nat} (hb : budget = limit - m.cycle) :
    ∃ n, m.EndsAfter quoted limit n (runFor quoted budget m).2 ∧ (runFor quoted budget m).1 = m.ticks n := by
  induction budget generalizing m with
  | zero =>
    rw [runFor]
    cases hh : m.halted with
    | true => exact ⟨0, .now (verdict?_of_halted hh), rfl⟩
    | false => exact ⟨0, .now (verdict?_of_le hh (by omega)), rfl⟩
  | succ budget ih =>
    rw [runFor]
    cases hh : m.halted with
    | true => exact ⟨0, .now (verdict?_of_halted hh), rfl⟩
    | false =>
      have hv := verdict?_of_lt quoted hh (show m.cycle < limit by omega)
      cases htick : m.tick with
      | error fault =>
        rw [htick] at hv
        exact ⟨0, .now hv, rfl⟩
      | ok r =>
        rw [htick] at hv
        obtain ⟨next, events⟩ := r
        have hone := Goes.one hv
        have hticked : m.ticks 1 = next := ticked_of_tick htick
        have hcycle := hone.cycle
        rw [hticked] at hcycle
        obtain ⟨n, hends, hlast⟩ := ih (m := next) (by omega)
        rw [if_neg Bool.false_ne_true]
        refine ⟨1 + n, .after hone ?_, ?_⟩
        · rwa [hticked]
        · rwa [← ticks_ticks, hticked]

/-- A run for `limit` more cycles. -/
theorem run_endsAfter (m : Machine) (limit : Nat) :
    ∃ n, m.EndsAfter limit (m.cycle + limit) n (m.run limit).2 ∧ (m.run limit).1 = m.ticks n :=
  runFor_endsAfter (Nat.add_sub_cancel_left ..).symm

/-- **Two runs are one**: a run that has used up its cycles goes on as if it had been given more. -/
theorem run_run {a : Nat} (b : Nat) (h : (m.run a).2 = .error (.cycleLimit a)) :
    (m.run a).1.run b = ((m.run (a + b)).1, (m.run (a + b)).2.mapError (·.quoting b)) := by
  obtain ⟨n, hfirst, hn⟩ := m.run_endsAfter a
  obtain ⟨k, hsecond, hk⟩ := (m.ticks n).run_endsAfter b
  obtain ⟨j, hboth, hj⟩ := m.run_endsAfter (a + b)
  rw [h] at hfirst
  obtain rfl : n = a := by
    have hcycle := hfirst.goes.cycle
    have hle := le_of_verdict? hfirst.ends
    cases n with
    | zero => omega
    | succ n =>
      obtain ⟨-, hlt, -⟩ := hfirst.goes.last
      rw [(hfirst.goes.mono (Nat.le_succ n)).cycle] at hlt
      omega
  rw [hfirst.goes.cycle, Nat.add_assoc] at hsecond
  have hpieces := EndsAfter.after (hfirst.goes.within (by omega)) hsecond
  obtain ⟨hlast, hresult⟩ := hpieces.unique (hboth.quoting b)
  rw [hn, hj, ← hresult, ← hlast, ← ticks_ticks]
  exact Prod.ext hk rfl

/-- Cycles asked for, for a run of `n` cycles to end with `result`: a fault shows when one more is tried. -/
def asked (n : Nat) : Except Fault Summary → Nat
  | .ok _ => n
  | .error _ => n + 1

theorem le_asked (n : Nat) (result : Except Fault Summary) : n ≤ asked n result := by
  cases result with
  | ok _ => exact Nat.le_refl n
  | error _ => exact Nat.le_succ n

theorem asked_sub (hk : k ≤ n) (result : Except Fault Summary) : asked (n - k) result = asked n result - k := by
  cases result with
  | ok _ => rfl
  | error _ => exact (Nat.sub_add_comm hk).symm

/-! ## Counters -/

/-- Every cycle has been counted as one with a dispatch or as a stall. -/
def Balanced (m : Machine) : Prop := m.summary.cycles = m.summary.dispatched + m.summary.stalls

end Machine

/-- As long as the program has not halted, a cycle is one with a dispatch or a stall. -/
theorem Sequencer.dispatched_or_stalled {s : Sequencer} (hh : s.halted = false) (chip : Chip) (input : Input) :
    (s.step chip input).2.dispatched.isSome.toNat + (s.step chip input).2.stalled.toNat = 1 := by
  rw [step, hh, if_neg Bool.false_ne_true]
  cases s.ready (input.program.fetch s.pc) <;> rfl

namespace Machine

variable {m : Machine} {quoted limit n : Nat}

theorem Balanced.step (hb : m.Balanced) (hh : m.halted = false) : m.step.1.Balanced := by
  have hone : m.step.2.dispatched.isSome.toNat + m.step.2.stalled.toNat = 1 :=
    Sequencer.dispatched_or_stalled hh m.chip _
  calc
    m.summary.cycles + 1
    _ = m.summary.dispatched + m.summary.stalls + (m.step.2.dispatched.isSome.toNat + m.step.2.stalled.toNat) := by
      rw [hone, hb]
    _ = m.summary.dispatched + m.step.2.dispatched.isSome.toNat + (m.summary.stalls + m.step.2.stalled.toNat) := by
      omega

theorem Goes.balanced (h : m.Goes quoted limit n) (hb : m.Balanced) : (m.ticks n).Balanced := by
  induction n with
  | zero => exact hb
  | succ n ih =>
    obtain ⟨hh, -, -, hstep⟩ := h.last
    rw [hstep]
    exact (ih (h.mono (Nat.le_succ n))).step hh

end Machine

namespace Session

variable {s : Session} {n k : Nat} {result : Except Fault Summary}

/-! ## Sessions -/

/-- The session after `n` more cycles, each with its trace line. -/
def stepped (s : Session) (n : Nat) : Session :=
  { s with
    machine := s.machine.ticks n
    trace := s.trace.map (· ++ ((List.range n).map s.machine.traceLine).toArray) }

theorem stepped_zero (s : Session) : s.stepped 0 = s := by
  rcases s with ⟨m, limit, quiet, _ | lines⟩
  · rfl
  · simp [stepped, Machine.ticks]

theorem stepped_stepped (s : Session) (n k : Nat) : (s.stepped n).stepped k = s.stepped (n + k) := by
  rcases s with ⟨m, limit, quiet, _ | lines⟩
  · simp [stepped, Machine.ticks_ticks]
  · simp [stepped, Machine.ticks_ticks, Machine.traceLine_ticks, List.range_add, Function.comp_def]

/-- The session's run goes through `n` cycles at least. -/
def Goes (s : Session) (n : Nat) : Prop := s.machine.Goes s.limit s.limit n

/-- The session's run goes through `n` cycles and ends with `result`. -/
def EndsAfter (s : Session) (n : Nat) (result : Except Fault Summary) : Prop :=
  s.machine.EndsAfter s.limit s.limit n result

theorem EndsAfter.stepped (h : s.EndsAfter n result) (hk : k ≤ n) : (s.stepped k).EndsAfter (n - k) result :=
  h.rest hk

/-- A cycle of a session is one more of its run. -/
theorem step_eq (hv : s.machine.verdict? s.limit s.limit = none) :
    s.step = .ok (s.stepped 1, s.machine.step.2) := by
  obtain ⟨-, -, htick⟩ := Machine.verdict?_eq_none_iff.1 hv
  rcases s with ⟨m, limit, quiet, trace⟩
  rw [step, htick]
  cases trace with
  | none => rfl
  | some lines => simp [stepped, Machine.traceLine, Machine.ticks]

/-- A fault of the machine is one of the session. -/
theorem step_of_error {fault : Fault} (h : s.machine.tick = .error fault) : s.step = .error fault := by
  rw [step, h]

/-- **A run of a session** goes on to the first verdict, with a trace line for every cycle. -/
theorem runFor_endsAfter {budget : Nat} (hb : budget = s.limit - s.machine.cycle) :
    ∃ n, s.EndsAfter n (runFor budget s).2 ∧ (runFor budget s).1 = s.stepped n := by
  induction budget generalizing s with
  | zero =>
    rw [runFor]
    cases hh : s.machine.halted with
    | true => exact ⟨0, .now (Machine.verdict?_of_halted hh), s.stepped_zero.symm⟩
    | false => exact ⟨0, .now (Machine.verdict?_of_le hh (by omega)), s.stepped_zero.symm⟩
  | succ budget ih =>
    rw [runFor]
    cases hh : s.machine.halted with
    | true => exact ⟨0, .now (Machine.verdict?_of_halted hh), s.stepped_zero.symm⟩
    | false =>
      have hv := Machine.verdict?_of_lt s.limit hh (show s.machine.cycle < s.limit by omega)
      cases htick : s.machine.tick with
      | error fault =>
        rw [htick] at hv
        rw [step_of_error htick]
        exact ⟨0, .now hv, s.stepped_zero.symm⟩
      | ok r =>
        rw [htick] at hv
        have hone := Machine.Goes.one hv
        have hcycle : (s.stepped 1).machine.cycle = s.machine.cycle + 1 := hone.cycle
        have hlimit : (s.stepped 1).limit = s.limit := rfl
        rw [step_eq hv, if_neg Bool.false_ne_true]
        obtain ⟨n, hends, hlast⟩ := ih (s := s.stepped 1) (by omega)
        refine ⟨1 + n, .after hone hends, ?_⟩
        rwa [← stepped_stepped]

theorem run_endsAfter (s : Session) : ∃ n, s.EndsAfter n s.run.2 ∧ s.run.1 = s.stepped n := runFor_endsAfter rfl

/-! ## Requests -/

/-- A reply to the request for `n` cycles: they are done, or the run has ended with one of them. -/
inductive Advances (s : Session) (n : Nat) (r : Reply) : Prop
  | done (goes : s.Goes n) (session : r.session = s.stepped n) (ended : r.ended = none)
  | ended (k : Nat) (result : Except Fault Summary) (le : k ≤ n) (ends : s.EndsAfter k result)
      (session : r.session = s.stepped k) (ended : r.ended = some result)

theorem Advances.now {r : Reply} (hv : s.machine.verdict? s.limit s.limit = some result) (hs : r.session = s)
    (he : r.ended = some result) : s.Advances n r :=
  .ended 0 result (Nat.zero_le n) (.now hv) (hs.trans s.stepped_zero.symm) he

theorem stepFor_advances (s : Session) (n : Nat) (output : String) : s.Advances n (stepFor n s output).settle := by
  induction n generalizing s output with
  | zero =>
    rw [stepFor, Reply.settle]
    cases hh : s.machine.halted with
    | true => exact .now (Machine.verdict?_of_halted hh) rfl rfl
    | false => exact .done (.zero) s.stepped_zero.symm rfl
  | succ n ih =>
    rw [stepFor]
    cases hh : s.machine.halted with
    | true =>
      refine .now (Machine.verdict?_of_halted hh) ?_ ?_ <;> simp [Reply.settle, hh]
    | false =>
      rw [if_neg Bool.false_ne_true]
      split
      case isTrue hle => exact .now (Machine.verdict?_of_le hh hle) rfl rfl
      case isFalse hlt =>
        have hv := Machine.verdict?_of_lt s.limit hh (Nat.lt_of_not_le hlt)
        cases htick : s.machine.tick with
        | error fault =>
          rw [htick] at hv
          rw [step_of_error htick]
          exact .now hv rfl rfl
        | ok r =>
          rw [htick] at hv
          rw [step_eq hv]
          have hone := Machine.Goes.one hv
          obtain ⟨goes, session, ended⟩ | ⟨k, result, hle, ends, session, ended⟩ := ih (s.stepped 1) _
          · rw [stepped_stepped, Nat.add_comm] at session
            exact .done (Nat.add_comm n 1 ▸ hone.add goes) session ended
          · rw [stepped_stepped] at session
            exact .ended (1 + k) result (by omega) (.after hone ends) session ended

/-! ## Conversations -/

/-- **Any conversation** goes part of the way of a run, and unless it reaches its end it answers with the counters. -/
theorem converse_goes (s : Session) (lines : List (List Char)) :
    ∃ n, s.Goes n ∧ (s.converse lines).session = s.stepped n ∧
      ((s.converse lines).result = .ok (s.machine.ticks n).summary ∨ s.EndsAfter n (s.converse lines).result) := by
  induction lines generalizing s with
  | nil => exact ⟨0, .zero, s.stepped_zero.symm, .inl rfl⟩
  | cons line rest ih =>
    rw [converse]
    cases Request.parse line with
    | error refusal => exact ih s
    | ok request =>
      cases request with
      | step n =>
        obtain ⟨goes, session, ended⟩ | ⟨k, result, -, ends, session, ended⟩ := stepFor_advances s n ""
        · obtain ⟨k, hk, hsession, hresult⟩ := ih (s.stepped n)
          simp only [answer, ended, session]
          refine ⟨n + k, goes.add hk, hsession.trans (stepped_stepped s n k), ?_⟩
          rw [← Machine.ticks_ticks]
          exact hresult.imp id (.after goes)
        · simp only [answer, ended]
          exact ⟨k, ends.goes, session, .inr ends⟩
      | «continue» =>
        obtain ⟨n, hends, hlast⟩ := s.run_endsAfter
        exact ⟨n, hends.goes, hlast, .inr hends⟩
      | print => exact ih s
      | quit => exact ⟨0, .zero, s.stepped_zero.symm, .inl rfl⟩

/-- What the lines of a conversation ask for. -/
def requests (lines : List (List Char)) : List Request := lines.filterMap fun line => (Request.parse line).toOption

/-- The requests ask for `need` cycles or for all before they quit. -/
def Drives (need : Nat) (rs : List Request) : Prop :=
  ∃ before after, rs = before ++ after ∧ .quit ∉ before ∧
    (.continue ∈ before ∨ need ≤ (before.map Request.cycles).sum)

theorem Drives.tail {need : Nat} {r : Request} {rs : List Request} (h : Drives need (r :: rs))
    (hc : r ≠ .continue) (hneed : 0 < need) : r ≠ .quit ∧ Drives (need - r.cycles) rs := by
  obtain ⟨before, after, heq, hquit, hdrives⟩ := h
  cases before with
  | nil => simp at hdrives; omega
  | cons r' before =>
    obtain ⟨rfl, rfl⟩ := List.cons.inj heq
    rw [List.mem_cons, not_or] at hquit
    refine ⟨fun h => hquit.1 h.symm, before, after, rfl, hquit.2, ?_⟩
    rw [List.mem_cons, List.map_cons, List.sum_cons] at hdrives
    rcases hdrives with (rfl | hmem) | hle
    · exact absurd rfl hc
    · exact .inl hmem
    · exact .inr (by omega)

/-- A conversation with a machine that has halted gives its counters. -/
theorem converse_at_end (h : s.EndsAfter n result) (hneed : Machine.asked n result = 0) (lines : List (List Char)) :
    (s.converse lines).session = s.stepped n ∧ (s.converse lines).result = result := by
  obtain ⟨k, hgoes, hsession, hresult⟩ := s.converse_goes lines
  obtain rfl : n = 0 := Nat.le_zero.1 (hneed ▸ Machine.le_asked n result)
  obtain rfl : k = 0 := Nat.le_zero.1 (h.le hgoes)
  refine ⟨hsession, hresult.elim (fun hok => ?_) fun h' => (h'.unique h).2⟩
  cases result with
  | error fault => cases hneed
  | ok summary => rw [hok, Machine.eq_summary_of_verdict? h.ends]

/-- **A conversation that asks for enough** ends as the run does. -/
theorem converse_driven {lines : List (List Char)} (h : s.EndsAfter n result)
    (hd : Drives (Machine.asked n result) (requests lines)) :
    (s.converse lines).session = s.stepped n ∧ (s.converse lines).result = result := by
  induction lines generalizing s n with
  | nil =>
    obtain ⟨before, after, heq, -, hdrives⟩ := hd
    obtain ⟨rfl, -⟩ := List.append_eq_nil_iff.1 heq.symm
    exact converse_at_end h (by simpa using hdrives) []
  | cons line rest ih =>
    rcases Nat.eq_zero_or_pos (Machine.asked n result) with hneed | hneed
    · exact converse_at_end h hneed (line :: rest)
    rw [requests, List.filterMap_cons] at hd
    rw [converse]
    cases hparse : Request.parse line with
    | error refusal =>
      rw [hparse] at hd
      exact ih h hd
    | ok request =>
      rw [hparse] at hd
      cases request with
      | step k =>
        obtain ⟨-, hd⟩ := hd.tail (by simp) hneed
        obtain ⟨goes, session, ended⟩ | ⟨k, result', -, ends, session, ended⟩ := stepFor_advances s k ""
        · have hk := h.le goes
          simp only [answer, ended, session]
          rw [Request.cycles, ← Machine.asked_sub hk] at hd
          obtain ⟨hsession, hresult⟩ := ih (h.stepped hk) hd
          rw [stepped_stepped, Nat.add_sub_cancel' hk] at hsession
          exact ⟨hsession, hresult⟩
        · obtain ⟨rfl, rfl⟩ := ends.unique h
          simp only [answer, ended, session, and_self]
      | «continue» =>
        obtain ⟨k, hends, hlast⟩ := s.run_endsAfter
        obtain ⟨rfl, rfl⟩ := hends.unique h
        exact ⟨hlast, rfl⟩
      | print => exact ih h (hd.tail (by simp) hneed).2
      | quit => exact absurd rfl (hd.tail (by simp) hneed).1

/-! ## From power-on -/

/-- A session with a machine that has not run yet. -/
def opened (machine : Machine) (limit : Nat) (quiet traced : Bool) : Session :=
  { machine, limit, quiet, trace := if traced then some #[] else none }

theorem trace_opened (m : Machine) (limit : Nat) (quiet traced : Bool) (n : Nat) :
    ((opened m limit quiet traced).stepped n).trace =
      if traced then some ((List.range n).map m.traceLine).toArray else none := by
  cases traced with
  | true => simp [opened, stepped]
  | false => rfl

/-- **Drivers agree.** One machine at power-on and one limit, in a run, in a run of two pieces, in a session in one go and
in one that answers requests:

- All of them come to the same state, with the same result up to the limit that it quotes, if the requests are for all
  cycles or for enough of them.
- Whatever lines a conversation is made of, it goes through the first cycles of that run.
- The trace has a line for each complete cycle, in order, and none for a tick that fails; the cycles are counted from
  zero, and line `i` begins with the member `cycle`, which is `i`.
- The cycles in a result are those with a dispatch and the stalls. -/
theorem drivers_agree (chip : Chip) (program : Program) (memories : Memories) (limit : Nat) (quiet traced : Bool) :
    let m := Machine.powerOnWith chip program memories
    let last := (m.run limit).1
    let result := (m.run limit).2
    let s := opened m limit quiet traced
    (last = m.ticks last.cycle ∧ s.run = (s.stepped last.cycle, result)) ∧
    (∀ a b, a + b = limit → (m.run a).2 = .error (.cycleLimit a) →
      (m.run a).1.run b = (last, result.mapError (·.quoting b))) ∧
    (∀ lines, Drives (Machine.asked last.cycle result) (requests lines) →
      (s.converse lines).session = s.run.1 ∧ (s.converse lines).result = result) ∧
    (∀ lines, ∃ n ≤ last.cycle, (s.converse lines).session = s.stepped n ∧
      ((s.converse lines).result = .ok (m.ticks n).summary ∨
        n = last.cycle ∧ (s.converse lines).result = result)) ∧
    (∀ n ≤ last.cycle, (m.ticks n).cycle = n ∧
      (s.stepped n).trace = (if traced then some ((List.range n).map m.traceLine).toArray else none) ∧
      ∀ i < n, (m.ticks i).tick = .ok (m.ticks (i + 1), (m.ticks i).step.2) ∧ (m.ticks i).step.2.cycle = i ∧
        ∃ rest, m.traceLine i = s!"\x7b\"cycle\":{i}," ++ rest) ∧
    (∀ cycle z, result = .error (.hazard cycle z) → cycle = last.cycle ∧ last.tick = .error (.hazard cycle z)) ∧
    (∀ summary, result = .ok summary → summary.cycles = summary.dispatched + summary.stalls) ∧
    ∀ lines summary, (s.converse lines).result = .ok summary →
      summary.cycles = summary.dispatched + summary.stalls := by
  intro m last result s
  have hcount {n : Nat} (h : m.Goes limit limit n) : (m.ticks n).cycle = n := by rw [h.cycle]; exact Nat.zero_add n
  have hbalance {n : Nat} (h : m.Goes limit limit n) : (m.ticks n).Balanced := h.balanced rfl
  obtain ⟨n, hends, hlast⟩ := m.run_endsAfter limit
  rw [show m.cycle + limit = limit from Nat.zero_add limit] at hends
  have hn : last.cycle = n := (congrArg Machine.cycle hlast).trans (hcount hends.goes)
  have hresult (summary : Summary) (h : result = .ok summary) :
      summary.cycles = summary.dispatched + summary.stalls := by
    rw [show (m.run limit).2 = .ok summary from h] at hends
    rw [Machine.eq_summary_of_verdict? hends.ends]
    exact hbalance hends.goes
  obtain ⟨k, hsession, hstepped⟩ := s.run_endsAfter
  obtain ⟨rfl, hsame⟩ := hsession.unique hends
  rw [hn]
  refine ⟨⟨hlast, Prod.ext hstepped hsame⟩, ?_, ?_, ?_, ?_, ?_, hresult, ?_⟩
  · rintro a b rfl h
    exact Machine.run_run b h
  · intro lines hd
    rw [hstepped]
    exact converse_driven (s := s) hends hd
  · intro lines
    obtain ⟨j, hgoes, hj, hok | hend⟩ := s.converse_goes lines
    · exact ⟨j, hends.le hgoes, hj, .inl hok⟩
    · obtain ⟨rfl, heq⟩ := hend.unique hends
      exact ⟨j, Nat.le_refl j, hj, .inr ⟨rfl, heq⟩⟩
  · intro j hj
    have hgoes := hends.goes.mono hj
    refine ⟨hcount hgoes, trace_opened m limit quiet traced j, ?_⟩
    intro i hi
    obtain ⟨-, -, htick, -⟩ := (hgoes.mono (Nat.succ_le_of_lt hi)).last
    have hnumber : (m.ticks i).step.2.cycle = i := hcount (hgoes.mono (Nat.le_of_lt hi))
    obtain ⟨rest, hline⟩ := Trace.line_starts (m.ticks i).step.2 (m.ticks (i + 1))
    rw [hnumber] at hline
    exact ⟨htick, hnumber, rest, hline⟩
  · intro cycle z h
    rw [show (m.run limit).2 = .error (.hazard cycle z) from h] at hends
    obtain ⟨htick, hcycle⟩ := Machine.tick_of_verdict? hends.ends
    rw [hcount hends.goes] at hcycle
    exact ⟨hcycle, (congrArg Machine.tick hlast).trans htick⟩
  · intro lines summary h
    obtain ⟨j, hgoes, -, hok | hend⟩ := s.converse_goes lines
    · rw [h] at hok
      rw [Except.ok.inj hok]
      exact hbalance hgoes
    · exact hresult summary ((hend.unique hends).2.symm.trans h)

/-- A machine that copies two rows and halts in its sixth cycle. -/
def copying : Machine :=
  let chip : Chip := { size := 4, padRows := 2, accRows := 1, hostRows := 2, tiles := 1 }
  .powerOnWith chip ⟨[.readHost 0 0 2, .sync, .halt]⟩ (.blank chip)

/-- The limit is the cycle of the halt, and the steps asked for are just enough. -/
theorem drivers_agree_copying :
    let lines := ["si 2".toList, "p".toList, "".toList, "si 3".toList]
    (copying.run 6).2 = .ok ⟨6, 3, 3, []⟩ ∧ (copying.run 4).2 = .error (.cycleLimit 4) ∧
      (copying.run 4).1.run 2 = ((copying.run 6).1, .ok ⟨6, 3, 3, []⟩) ∧
      ((opened copying 6 false true).converse lines).session = (opened copying 6 false true).run.1 ∧
      ((opened copying 6 false true).converse lines).result = .ok ⟨6, 3, 3, []⟩ := by
  intro lines
  have hresult : (copying.run 6).2 = .ok ⟨6, 3, 3, []⟩ := by decide +kernel
  have hfirst : (copying.run 4).2 = .error (.cycleLimit 4) := by decide +kernel
  have hasked : Machine.asked (copying.run 6).1.cycle (copying.run 6).2 = 6 := by decide +kernel
  have hrequests : requests lines = [.step 2, .print, .step 1, .step 3] := by decide +kernel
  have hdrives : Drives (Machine.asked (copying.run 6).1.cycle (copying.run 6).2) (requests lines) :=
    ⟨requests lines, [], (List.append_nil _).symm, by rw [hrequests]; decide, by rw [hrequests, hasked]; decide⟩
  have hm : Machine.powerOnWith copying.chip copying.program copying.memories = copying := rfl
  have hagree := drivers_agree copying.chip copying.program copying.memories 6 false true
  rw [hm] at hagree
  obtain ⟨-, hpieces, hdriven, -⟩ := hagree
  have hsecond := hpieces 4 2 rfl hfirst
  obtain ⟨hsession, hsame⟩ := hdriven lines hdrives
  rw [hresult] at hsecond hsame
  exact ⟨hresult, hfirst, hsecond, hsession, hsame⟩

end Session

end Systolic
