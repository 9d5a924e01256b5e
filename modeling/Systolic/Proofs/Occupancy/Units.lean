import Systolic.Proofs.Course.Activation
import Systolic.Proofs.Course.Waiting

/-!
# Busy counters and the units

The sequencer never looks at a unit, it counts down a duration. `Covers` says that the count is long enough: what is
under way in the unit ends within the cycles that are left, and a command that is about to reach the unit finds it idle,
with its whole duration ahead. One law carries this through a cycle for every class of units (`Covers.next`), given what
the cycle leaves under way in the unit: `HostLink.Within.step` and `TileReader.Within.step`.

The activation unit is followed more closely: its counter is the number of rows that are left (`Activator.Paced`).
-/

namespace Systolic

/-! ## Counters that outlast their unit -/

/-- A busy counter outlasts its unit. `ends n` says that what is under way in the unit ends within `n` cycles, and
`given` is the duration of the command that the unit sees next. -/
structure Covers (ends : Nat → Prop) (given : Option Nat) (busy : Nat) : Prop where
  within : ends busy
  fresh : ∀ n, given = some n → busy = n ∧ ends 0

namespace Covers

variable {P P' : Nat → Prop} {given given' : Option Nat} {busy busy' : Nat}

/-- One cycle: the counter runs down or, from zero, is set again, to a span that fits it. -/
theorem next (hmono : ∀ {m n}, m ≤ n → P' m → P' n) (hstep : P' (busy - 1))
    (hcount : busy' = (given'.map (· % 2 ^ 64)).getD (busy - 1)) (hready : given'.isSome = true → busy = 0)
    (hfit : ∀ n, given' = some n → n < 2 ^ 64) : Covers P' given' busy' := by
  cases given' with
  | none =>
    rw [Option.map_none, Option.getD_none] at hcount
    exact ⟨by rw [hcount]; exact hstep, nofun⟩
  | some n =>
    rw [Option.map_some, Option.getD_some, Nat.mod_eq_of_lt (hfit n rfl)] at hcount
    rw [hready rfl] at hstep
    exact ⟨hmono (Nat.zero_le _) hstep, fun m hm => ⟨hcount.trans (Option.some.inj hm), hstep⟩⟩

/-- With the counter at zero nothing is under way. -/
theorem idle (h : Covers P given 0) : P 0 := h.within

/-- With the counter at zero, only a command of no duration can be about to arrive. -/
theorem given_eq_zero (h : Covers P given 0) {n : Nat} (hn : given = some n) : n = 0 := (h.fresh n hn).1.symm

end Covers

/-! ## The host link -/

namespace HostLink

theorem Job.toNat_next {j k : Job} (h : j.next? = some k) : k.remaining.toNat + 1 = j.remaining.toNat := by
  unfold next? at h
  split at h
  · obtain rfl := Option.some.inj h
    exact toNat_sub_one ‹_›
  · cases h

/-- What is under way in the link ends within `n` cycles: a running job and, in the cycle after its last row, the
response. -/
structure Within (link : HostLink) (n : Nat) : Prop where
  reading : ∀ j, link.reading = some j → j.remaining.toNat + 1 ≤ n
  writing : ∀ j, link.writing = some j → j.remaining.toNat + 1 ≤ n
  response : link.response.valid = true → 1 ≤ n

variable {link : HostLink}

theorem Within.mono {m n : Nat} (hmn : m ≤ n) (h : link.Within m) : link.Within n :=
  ⟨fun j hj => (h.reading j hj).trans hmn, fun j hj => (h.writing j hj).trans hmn, fun hv => (h.response hv).trans hmn⟩

/-- A link with no time left is idle. -/
theorem Within.idle (h : link.Within 0) : link.reading = none ∧ link.writing = none ∧ link.response.valid = false := by
  refine ⟨Option.eq_none_iff_forall_ne_some.2 fun j hj => ?_, Option.eq_none_iff_forall_ne_some.2 fun j hj => ?_, ?_⟩
  · exact absurd (h.reading j hj) (Nat.not_succ_le_zero _)
  · exact absurd (h.writing j hj) (Nat.not_succ_le_zero _)
  · rw [← Bool.not_eq_true]
    exact fun hv => absurd (h.response hv) (by omega)

theorem within_clear (link : HostLink) (n : Nat) : link.clear.Within n := ⟨nofun, nofun, nofun⟩

variable {issue : Option Command} {n : Nat} (h : Covers link.Within (issue.bind Sequencer.hostSet) n)
include h

theorem toNat_reading? {j : Job} (hj : link.reading? issue = some j) :
    j.remaining.toNat + 1 ≤ n ∧ 0 < j.remaining.toNat := by
  unfold reading? at hj
  obtain ⟨hjob, hpos⟩ := Option.filter_eq_some_iff.1 hj
  refine ⟨?_, toNat_pos_iff.2 (by simpa using hpos)⟩
  split at hjob
  · obtain rfl := Option.some.inj hjob
    exact (h.fresh _ rfl).1.ge
  · exact h.within.reading j hjob

theorem toNat_writing? {j : Job} (hj : link.writing? issue = some j) : j.remaining.toNat + 1 ≤ n := by
  unfold writing? at hj
  obtain ⟨hjob, -⟩ := Option.filter_eq_some_iff.1 hj
  split at hjob
  · obtain rfl := Option.some.inj hjob
    exact (h.fresh _ rfl).1.ge
  · exact h.within.writing j hjob

/-- A row that enters the response register has a cycle left in which it lands. -/
theorem two_le_of_respond? {chip : Chip} {host : RowStore} (hr : (link.respond? chip host issue).isSome = true) :
    2 ≤ n := by
  unfold respond? at hr
  split at hr
  · obtain ⟨hle, hpos⟩ := toNat_reading? h ‹_›
    omega
  · exact (h.fresh _ rfl).1.ge
  · cases hr

theorem Within.step (chip : Chip) (pad host : RowStore) : (link.step chip issue pad host).1.Within (n - 1) := by
  refine ⟨fun k hk => ?_, fun k hk => ?_, fun hv => ?_⟩
  · obtain ⟨j, hj, hnext⟩ := Option.bind_eq_some_iff.1 hk
    have hle := (toNat_reading? h hj).1
    have hk := Job.toNat_next hnext
    omega
  · obtain ⟨j, hj, hnext⟩ := Option.bind_eq_some_iff.1 hk
    have hle := toNat_writing? h hj
    have hk := Job.toNat_next hnext
    omega
  · have hr : (link.respond? chip host issue).isSome = true := by
      cases hr : link.respond? chip host issue with
      | some w => rfl
      | none => simp [HostLink.step, hr, Wire.clear] at hv
    have := two_le_of_respond? h hr
    omega

end HostLink

/-! ## The tile reader -/

namespace TileReader

/-- Cycles in which the job still waits or has bursts to emit. -/
def Job.ahead (chip : Chip) (j : Job) : Nat := j.wait + (chip.burstsPerTile - 1 - j.next) + 1

theorem Job.ahead_step {chip : Chip} {store : TileStore} {j k : Job} (h : (j.step chip store).1 = some k) :
    k.ahead chip + 1 = j.ahead chip := by
  unfold Job.step at h
  split at h
  · obtain rfl := Option.some.inj h
    simp only [Job.ahead]
    omega
  · dsimp only at h
    split at h
    · obtain rfl := Option.some.inj h
      simp only [Job.ahead]
      omega
    · cases h

/-- What is under way in the reader ends within `n` cycles. -/
def Within (chip : Chip) (r : TileReader) (n : Nat) : Prop := ∀ j, r.job = some j → j.ahead chip ≤ n

variable {chip : Chip} {r : TileReader}

theorem Within.mono {m n : Nat} (hmn : m ≤ n) (h : r.Within chip m) : r.Within chip n := fun j hj => (h j hj).trans hmn

theorem Within.idle (h : r.Within chip 0) : r.job = none :=
  Option.eq_none_iff_forall_ne_some.2 fun j hj => absurd (h j hj) (Nat.not_succ_le_zero _)

theorem Within.step {issue : Option Command} {n : Nat}
    (h : Covers (r.Within chip) (issue.bind (Sequencer.weightsSet chip)) n) (store : TileStore) :
    (r.step chip (issue.bind (·.tile?)) store).1.Within chip (n - 1) := by
  intro k hk
  cases hreq : issue.bind (·.tile?) with
  | some tile =>
    obtain ⟨c, rfl, hc⟩ := Option.bind_eq_some_iff.1 hreq
    have hset : (some c).bind (Sequencer.weightsSet chip) = some chip.weightSpan := by
      rw [Option.bind_some, Sequencer.weightsSet, hc]
      rfl
    have hn := (h.fresh _ hset).1
    rw [hreq] at hk
    obtain rfl : _ = k := Option.some.inj hk
    simp only [Job.ahead, hn, Chip.weightSpan, queueDepth]
    omega
  | none =>
    rw [hreq] at hk
    change ((r.job.map (Job.step chip store)).getD (none, none)).1 = some k at hk
    cases hjob : r.job with
    | none => rw [hjob] at hk; cases hk
    | some j =>
      rw [hjob] at hk
      have hle := h.within j hjob
      have hk := Job.ahead_step hk
      omega

end TileReader

/-! ## The activation unit -/

namespace Activator

theorem Job.toNat_next {j k : Job} (h : j.next? = some k) :
    k.remaining.toNat + 1 = j.remaining.toNat ∧ k.remaining ≠ 0 ∧ k.first = false := by
  unfold next? at h
  split at h
  · obtain rfl := Option.some.inj h
    have hlt := toNat_sub_one ‹1 < j.remaining›
    have hj : 1 < j.remaining.toNat := UInt64.lt_iff_toNat_lt.1 ‹1 < j.remaining›
    have hk : 0 < (j.remaining - 1).toNat := by omega
    exact ⟨hlt, toNat_pos_iff.1 hk, rfl⟩
  · cases h

/-- A job without a next row has come to its last. -/
theorem Job.toNat_of_next?_none {j : Job} (h : j.next? = none) : j.remaining.toNat ≤ 1 := by
  unfold next? at h
  split at h
  · cases h
  · exact UInt64.le_iff_toNat_le.1 (UInt64.not_lt.1 ‹_›)

/-- Rows that are left of the activation which the unit runs or sees next. -/
def rowsLeft (u : Activator) (issue : Option ActivationRun) : Nat := ((u.job? issue).map (·.remaining.toNat)).getD 0

/-- The busy counter is the number of rows that are left. A running job is past its first row, and no command arrives
while there is one. -/
structure Paced (u : Activator) (issue : Option ActivationRun) (busy : Nat) : Prop where
  rows : busy = u.rowsLeft issue
  later : ∀ j, u.job = some j → j.first = false ∧ j.remaining ≠ 0
  alone : issue.isSome = true → u.job = none

variable {u : Activator} {issue : Option ActivationRun} {busy : Nat}

theorem rowsLeft_eq_zero_iff : u.rowsLeft issue = 0 ↔ u.job? issue = none := by
  unfold rowsLeft
  cases hj : u.job? issue with
  | none => exact ⟨fun _ => rfl, fun _ => rfl⟩
  | some j =>
    have hne : j.remaining ≠ 0 := by simpa using (Option.filter_eq_some_iff.1 hj).2
    rw [Option.map_some, Option.getD_some]
    exact ⟨fun h => absurd h (toNat_pos_iff.2 hne).ne', nofun⟩

/-- An issued activation has all its rows left. -/
theorem rowsLeft_some (u : Activator) (a : ActivationRun) : u.rowsLeft (some a) = a.length.toNat := by
  rw [rowsLeft, jobAt_zero, jobAt]
  by_cases h : 0 < a.length.toNat
  · rw [if_pos h]
    simp [Job.ofRow]
  · rw [if_neg h]
    simp only [Option.map_none, Option.getD_none]
    omega

/-- With the counter at zero the unit is idle, and an activation that is about to arrive has no rows. -/
theorem Paced.idle (h : u.Paced issue 0) : u.job = none ∧ ∀ a, issue = some a → a.length = 0 := by
  have hnone := rowsLeft_eq_zero_iff.1 h.rows.symm
  constructor
  · refine Option.eq_none_iff_forall_ne_some.2 fun j hj => ?_
    cases issue with
    | some a =>
      rw [h.alone rfl] at hj
      cases hj
    | none =>
      have hne := (h.later j hj).2
      rw [job?, hj] at hnone
      simp [Option.filter, hne] at hnone
  · rintro a rfl
    have hlen := h.rows
    rw [rowsLeft_some] at hlen
    exact UInt64.toNat_inj.1 hlen.symm

/-- What is left after a cycle: nothing after a branch or a jump, else one row less. -/
theorem rowsLeft_step (chip : Chip) (store : AccStore) (u : Activator) (issue : Option ActivationRun) :
    (u.step chip issue store).1.rowsLeft none =
      if (u.step chip issue store).2.resolved then 0 else u.rowsLeft issue - 1 := by
  rw [step_eq, rowsLeft, rowsLeft]
  cases hj : u.job? issue with
  | none => rfl
  | some j =>
    rw [Option.map_some, Option.getD_some, Option.map_some, Option.getD_some, Job.step]
    cases (Outcome.decode chip j.function j.first (store.readRow j.accAddr)).redirect? j.pc with
    | some target => rfl
    | none =>
      dsimp only
      cases hnext : j.next? with
      | none =>
        have := Job.toNat_of_next?_none hnext
        simp only [job?, Option.map_none, Option.none_or, Option.filter_none, Option.getD_none]
        rw [if_neg (by simp)]
        omega
      | some k =>
        obtain ⟨hk, hne, -⟩ := Job.toNat_next hnext
        have hrun : (⟨some k⟩ : Activator).job? none = some k := by simp [job?, Option.filter, hne]
        rw [hrun, Option.map_some, Option.getD_some, if_neg (by simp)]
        omega

/-- What the unit keeps after a cycle is past its first row. -/
theorem later_step {chip : Chip} {store : AccStore} {k : Job} (h : (u.step chip issue store).1.job = some k) :
    k.first = false ∧ k.remaining ≠ 0 := by
  rw [step_eq] at h
  cases hj : u.job? issue with
  | none => rw [hj] at h; cases h
  | some j =>
    rw [hj, Option.map_some, Option.getD_some, Job.step] at h
    split at h
    · cases h
    · obtain ⟨-, hne, hfirst⟩ := Job.toNat_next h
      exact ⟨hfirst, hne⟩

/-- One cycle: the counter runs down, is cleared by a branch or a jump or, from zero, is set again. -/
theorem Paced.next (h : u.Paced issue busy) {chip : Chip} {store : AccStore} {issue' : Option ActivationRun} {busy' : Nat}
    (hcount : busy' = (issue'.map (·.length.toNat)).getD
      (if (u.step chip issue store).2.resolved then 0 else busy - 1))
    (hready : issue'.isSome = true → busy = 0) : (u.step chip issue store).1.Paced issue' busy' := by
  refine ⟨?_, fun k hk => later_step hk, fun hsome => ?_⟩
  · cases issue' with
    | none => rw [hcount, Option.map_none, Option.getD_none, rowsLeft_step, ← h.rows]
    | some a => rw [hcount, Option.map_some, Option.getD_some, rowsLeft_some]
  · have hnone : u.job? issue = none := rowsLeft_eq_zero_iff.1 (h.rows.symm.trans (hready hsome))
    rw [step_eq, hnone]
    rfl

end Activator

end Systolic
