import Mathlib.Data.Nat.Count
import Systolic.Pipeline.TileQueue
import Systolic.Pipeline.TileReader

/-!
# Tiles on their way to the array

A run of the tile reader in front of the tile queue. Tiles are counted by how far they have come before a cycle:
`requested` of the reader, `complete` in slot 1, `atSecond`, `atThird`, `atFront` in that slot or beyond it, and `gone`
from the queue. Each count is at most one ahead of the next one, and moves on when there is room (`le_atSecond_succ`,
`le_atThird_succ`, `le_atFront_succ`). While no burst is lost, every requested tile is complete except the one the reader
is working at (`streaming`), and a tile is complete `latency + bursts` cycles after its request (`complete_of_request`).
-/

namespace Systolic

/-- Cycles that a job of the reader still needs. -/
def TileReader.Job.left (j : TileReader.Job) (chip : Chip) : Nat := j.wait + (chip.burstsPerTile - j.next)

/-- What the tile reader and the tile queue see of their surroundings in every cycle. -/
structure Supply where
  chip : Chip
  weights : Nat → TileStore
  request : Nat → Option UInt64
  /-- The array drops the front tile. -/
  advance : Nat → Bool

namespace Supply

variable (S : Supply)

def reader : Nat → TileReader
  | 0 => {}
  | t + 1 => ((reader t).step S.chip (S.request t) (S.weights t)).1

/-- The burst of cycle `t`. -/
def burst (t : Nat) : Option Row := ((S.reader t).step S.chip (S.request t) (S.weights t)).2

def queue : Nat → TileQueue
  | 0 => .empty S.chip.size
  | t + 1 => ((queue t).step S.chip.size (S.burst t) (S.advance t)).1

/-- The burst of cycle `t` is lost. -/
def overflows (t : Nat) : Bool := ((S.queue t).step S.chip.size (S.burst t) (S.advance t)).2

/-- Slot 1 is full in cycle `t`. -/
def full (t : Nat) : Bool := (S.queue t).full S.chip.size

/-- The front tile leaves in cycle `t`. -/
def leaves (t : Nat) : Bool := S.advance t && (S.queue t).front.isSome

def requested (t : Nat) : Nat := Nat.count (fun u => (S.request u).isSome = true) t

def gone (t : Nat) : Nat := Nat.count (fun u => S.leaves u = true) t

def atFront (t : Nat) : Nat := S.gone t + (S.queue t).front.isSome.toNat

def atThird (t : Nat) : Nat := S.atFront t + (S.queue t).third.isSome.toNat

def atSecond (t : Nat) : Nat := S.atThird t + (S.queue t).second.isSome.toNat

def complete (t : Nat) : Nat := S.atSecond t + (S.full t).toNat

/-- No burst has been lost before cycle `t`. -/
def KeptBefore (t : Nat) : Prop := ∀ u < t, S.overflows u = false

variable {S}

/-! ## One cycle of the slots -/

theorem isSome_ripple (behind own : Option Tile) (leaves : Bool) :
    (TileQueue.ripple behind own leaves).isSome = (if own.isSome then !leaves else behind.isSome) := by
  cases own <;> cases leaves <;> simp [TileQueue.ripple]

theorem isSome_first (q : TileQueue) (n : Nat) : (q.first n).isSome = q.full n := by
  unfold TileQueue.first
  cases q.full n <;> simp

theorem front_succ (t : Nat) : (S.queue (t + 1)).front =
    TileQueue.ripple (S.queue t).third (S.queue t).front (S.advance t) := rfl

theorem third_succ (t : Nat) : (S.queue (t + 1)).third =
    TileQueue.ripple (S.queue t).second (S.queue t).third (S.queue t).front.isNone := rfl

theorem second_succ (t : Nat) : (S.queue (t + 1)).second =
    TileQueue.ripple ((S.queue t).first S.chip.size) (S.queue t).second (S.queue t).third.isNone := rfl

theorem gone_succ (t : Nat) : S.gone (t + 1) = S.gone t + (S.leaves t).toNat := by
  rw [gone, Nat.count_succ]
  cases S.leaves t <;> rfl

theorem atFront_succ (t : Nat) :
    S.atFront (t + 1) = S.atFront t + ((S.queue t).front.isNone && (S.queue t).third.isSome).toNat := by
  simp only [atFront, gone_succ, front_succ, isSome_ripple, leaves]
  cases (S.queue t).front <;> cases (S.queue t).third <;> cases S.advance t <;> simp

theorem atThird_succ (t : Nat) :
    S.atThird (t + 1) = S.atThird t + ((S.queue t).third.isNone && (S.queue t).second.isSome).toNat := by
  simp only [atThird, atFront_succ, third_succ, isSome_ripple]
  cases (S.queue t).front <;> cases (S.queue t).third <;> cases (S.queue t).second <;> simp

theorem atSecond_succ (t : Nat) :
    S.atSecond (t + 1) = S.atSecond t + ((S.queue t).second.isNone && S.full t).toNat := by
  simp only [atSecond, atThird_succ, second_succ, isSome_ripple, isSome_first, full]
  cases (S.queue t).third <;> cases (S.queue t).second <;> cases (S.queue t).full S.chip.size <;> simp

theorem atFront_succ_le (t : Nat) : S.atFront (t + 1) ≤ S.atThird t := by
  rw [atFront_succ, atThird]
  cases (S.queue t).front <;> cases (S.queue t).third <;> simp

theorem le_atFront_succ {n t : Nat} (h : n ≤ S.atThird t) (hroom : n ≤ S.gone t + 1) : n ≤ S.atFront (t + 1) := by
  rw [atFront_succ]
  unfold atThird atFront at *
  revert h hroom
  cases (S.queue t).front <;> cases (S.queue t).third <;> simp
  omega

theorem le_atThird_succ {n t : Nat} (h : n ≤ S.atSecond t) (hroom : n ≤ S.atFront t + 1) : n ≤ S.atThird (t + 1) := by
  rw [atThird_succ]
  unfold atSecond atThird at *
  revert h hroom
  cases (S.queue t).third <;> cases (S.queue t).second <;> simp
  omega

theorem le_atSecond_succ {n t : Nat} (h : n ≤ S.complete t) (hroom : n ≤ S.atThird t + 1) : n ≤ S.atSecond (t + 1) := by
  rw [atSecond_succ]
  unfold complete atSecond at *
  revert h hroom
  cases (S.queue t).second <;> cases S.full t <;> simp
  omega

/-- A complete tile ripples to the front in three cycles if the tile before it keeps ahead. -/
theorem le_atFront {n t : Nat} (h : n ≤ S.complete t) (hthird : n ≤ S.atThird t + 1)
    (hfront : n ≤ S.atFront (t + 1) + 1) (hgone : n ≤ S.gone (t + 2) + 1) : n ≤ S.atFront (t + 3) :=
  le_atFront_succ (le_atThird_succ (le_atSecond_succ h hthird) hfront) hgone

theorem gone_mono {s t : Nat} (h : s ≤ t) : S.gone s ≤ S.gone t := Nat.count_monotone _ h

theorem atFront_mono {s t : Nat} (h : s ≤ t) : S.atFront s ≤ S.atFront t :=
  monotone_nat_of_le_succ (fun u => by rw [atFront_succ]; omega) h

theorem requested_mono {s t : Nat} (h : s ≤ t) : S.requested s ≤ S.requested t := Nat.count_monotone _ h

theorem requested_succ (t : Nat) : S.requested (t + 1) = S.requested t + (S.request t).isSome.toNat := by
  rw [requested, Nat.count_succ]
  cases S.request t <;> rfl

/-! ## Bursts -/

variable (S)

/-- What is left of the reader's job after cycle `t`, a request apart. -/
def rest (t : Nat) : Option TileReader.Job :=
  (((S.reader t).job.map (TileReader.Job.step S.chip (S.weights t))).getD (none, none)).1

/-- Elements of a tile that slot 1 holds without the tile being complete. -/
def arrived (t : Nat) : Nat := if S.full t then 0 else (S.queue t).filled

/-- Cycles that the reader still needs for its job. -/
def left (t : Nat) : Nat := ((S.reader t).job.map (·.left S.chip)).getD 0

/-- A supply of whole tiles, with no request while bursts of the one before it are outstanding. -/
structure Regular : Prop where
  size : 0 < S.chip.size
  burst : 0 < S.chip.burstElems
  tiles : ∀ t a, ((S.weights t).read a).length = S.chip.size * S.chip.size
  spaced : ∀ t, (S.request t).isSome = true → S.rest t = none

variable {S}

theorem lt_burstsPerTile_iff {c : Chip} (h : 0 < c.burstElems) {k : Nat} :
    k < c.burstsPerTile ↔ k * c.burstElems < c.size * c.size := by
  rw [Chip.burstsPerTile, Nat.lt_iff_add_one_le, Nat.le_div_iff_mul_le h, Nat.add_mul]
  omega

theorem job_succ (t : Nat) : (S.reader (t + 1)).job =
    ((S.request t).map fun tile => ⟨tile, S.chip.latency, 0⟩).or (S.rest t) := rfl

theorem filled_succ (t : Nat) (h : S.overflows t = false) : (S.queue (t + 1)).filled =
    min ((if (S.queue t).drains S.chip.size then 0 else (S.queue t).filled) + ((S.burst t).getD []).length)
      (S.chip.size * S.chip.size) := by
  have h' : ((S.burst t).isSome && (S.queue t).full S.chip.size && !(S.queue t).drains S.chip.size) = false := h
  simp only [queue, TileQueue.step, h', Bool.false_eq_true, if_false]

theorem full_succ (t : Nat) (h : S.overflows t = false) : S.full (t + 1) =
    decide (S.chip.size * S.chip.size ≤
      (if (S.queue t).drains S.chip.size then 0 else (S.queue t).filled) + ((S.burst t).getD []).length) := by
  simp only [full, TileQueue.full, filled_succ t h]
  congr 1
  rw [eq_iff_iff]
  omega

/-- A burst is lost when slot 1 is full and slot 2 taken. -/
theorem overflows_iff {t : Nat} : S.overflows t = true ↔
    (S.burst t).isSome = true ∧ S.full t = true ∧ (S.queue t).second.isSome = true := by
  have h : S.overflows t = ((S.burst t).isSome && S.full t && !(S.full t && (S.queue t).second.isNone)) := rfl
  rw [h]
  cases (S.burst t).isSome <;> cases S.full t <;> cases (S.queue t).second <;> simp

/-- How the reader, slot 1 and the counts stand in cycle `t`. -/
structure Streaming (S : Supply) (t : Nat) : Prop where
  next : ∀ j, (S.reader t).job = some j → j.next < S.chip.burstsPerTile ∧ (0 < j.wait → j.next = 0)
  arrived : S.arrived t = ((S.reader t).job.map (·.next * S.chip.burstElems)).getD 0
  requested : S.requested t = S.complete t + (S.reader t).job.isSome.toNat

/-- A cycle without a burst leaves the count of complete tiles and the unfinished one as they are. -/
theorem quiet_succ (hr : S.Regular) {t : Nat} (hb : S.burst t = none) :
    S.complete (t + 1) = S.complete t ∧ S.arrived (t + 1) = S.arrived t := by
  have hk : S.overflows t = false := by simp [overflows, TileQueue.step, hb]
  have hsq : 0 < S.chip.size * S.chip.size := Nat.mul_pos hr.size hr.size
  have hd : (S.queue t).drains S.chip.size = (S.full t && (S.queue t).second.isNone) := rfl
  have hf : S.full t = decide (S.chip.size * S.chip.size ≤ (S.queue t).filled) := rfl
  have hfull := full_succ t hk
  have hfill := filled_succ t hk
  simp only [hb, Option.getD_none, List.length_nil, Nat.add_zero, hd] at hfull hfill
  simp only [complete, arrived, atSecond_succ, hfull, hfill, hf]
  generalize S.chip.size * S.chip.size = n at hsq
  by_cases hle : n ≤ (S.queue t).filled
  · cases (S.queue t).second <;> simp [hle]
    omega
  · simp [hle]
    omega

/-- A burst is kept when slot 1 has room, or drains in the same cycle. -/
theorem drains_of_burst {t : Nat} {b : Row} (hb : S.burst t = some b) (hk : S.overflows t = false) :
    (S.queue t).drains S.chip.size = S.full t := by
  have h : ((S.burst t).isSome && S.full t && !(S.queue t).drains S.chip.size) = false := hk
  rw [hb] at h
  change (true && S.full t && !(S.full t && (S.queue t).second.isNone)) = false at h
  change (S.full t && (S.queue t).second.isNone) = S.full t
  revert h
  cases S.full t <;> simp

/-- A burst that is kept finds every complete tile beyond slot 1. -/
theorem atSecond_of_burst {t : Nat} {b : Row} (hb : S.burst t = some b) (hk : S.overflows t = false) :
    S.atSecond (t + 1) = S.complete t := by
  have hd : ((S.queue t).second.isNone && S.full t) = S.full t := (Bool.and_comm _ _).trans (drains_of_burst hb hk)
  rw [atSecond_succ, complete, hd]

/-- A burst that is kept lengthens the unfinished tile, or completes it. -/
theorem burst_succ (hr : S.Regular) {t : Nat} {b : Row} (hb : S.burst t = some b) (hk : S.overflows t = false) :
    S.complete (t + 1) =
        S.complete t + (decide (S.chip.size * S.chip.size ≤ S.arrived t + b.length)).toNat ∧
      S.arrived (t + 1) = if S.chip.size * S.chip.size ≤ S.arrived t + b.length then 0 else S.arrived t + b.length := by
  have hsq : 0 < S.chip.size * S.chip.size := Nat.mul_pos hr.size hr.size
  have hbase : (if (S.queue t).drains S.chip.size = true then 0 else (S.queue t).filled) = S.arrived t := by
    rw [drains_of_burst hb hk, arrived]
  have hfull := full_succ t hk
  have hfill := filled_succ t hk
  rw [hbase, hb, Option.getD_some] at hfull hfill
  constructor
  · rw [complete, atSecond_of_burst hb hk, hfull]
  · rw [arrived, hfull, hfill]
    by_cases h : S.chip.size * S.chip.size ≤ S.arrived t + b.length <;> simp [h]
    omega

/-- What one cycle of the reader does to a job that waits. -/
theorem wait_of_job {t : Nat} {j : TileReader.Job} (hj : (S.reader t).job = some j) (hw : 0 < j.wait) :
    S.burst t = none ∧ S.rest t = some { j with wait := j.wait - 1 } := by
  simp [burst, rest, TileReader.step, hj, TileReader.Job.step, hw]

/-- What one cycle of the reader does to a job whose next burst is due. -/
theorem burst_of_job {t : Nat} {j : TileReader.Job} (hj : (S.reader t).job = some j) (hw : j.wait = 0) :
    S.burst t = some (TileReader.burst S.chip ((S.weights t).read j.tile) j.next) ∧
      S.rest t = if j.next + 1 < S.chip.burstsPerTile then some { j with next := j.next + 1 } else none := by
  simp [burst, rest, TileReader.step, hj, TileReader.Job.step, hw]

theorem burst_of_none {t : Nat} (hj : (S.reader t).job = none) : S.burst t = none ∧ S.rest t = none := by
  simp [burst, rest, TileReader.step, hj]

/-- A burst comes from a job that has waited long enough. -/
theorem exists_job_of_burst {t : Nat} {b : Row} (hb : S.burst t = some b) : ∃ j, (S.reader t).job = some j ∧
    j.wait = 0 ∧ b = TileReader.burst S.chip ((S.weights t).read j.tile) j.next := by
  cases hj : (S.reader t).job with
  | none =>
    rw [(burst_of_none hj).1] at hb
    cases hb
  | some j =>
    rcases Nat.eq_zero_or_pos j.wait with hwait | hwait
    · rw [(burst_of_job hj hwait).1] at hb
      exact ⟨j, rfl, hwait, (Option.some.inj hb).symm⟩
    · rw [(wait_of_job hj hwait).1] at hb
      cases hb

theorem length_burst (hr : S.Regular) (t : Nat) (a : UInt64) (k : Nat) :
    (TileReader.burst S.chip ((S.weights t).read a) k).length =
      min S.chip.burstElems (S.chip.size * S.chip.size - k * S.chip.burstElems) := by
  simp [TileReader.burst, hr.tiles]

/-- What a burst leaves of the job, with the counts to match. -/
theorem Streaming.rest_burst (hr : S.Regular) {t : Nat} (h : S.Streaming t) (hk : S.overflows t = false)
    {j : TileReader.Job} (hj : (S.reader t).job = some j) (hwait : j.wait = 0) :
    (∀ i, S.rest t = some i → i.next < S.chip.burstsPerTile ∧ (0 < i.wait → i.next = 0)) ∧
      S.arrived (t + 1) = ((S.rest t).map (·.next * S.chip.burstElems)).getD 0 ∧
      S.requested t = S.complete (t + 1) + (S.rest t).isSome.toNat := by
  obtain ⟨hb, hrest⟩ := burst_of_job hj hwait
  obtain ⟨hc, ha⟩ := burst_succ hr hb hk
  have harr := h.arrived
  have hreq := h.requested
  rw [hj, Option.map_some, Option.getD_some] at harr
  rw [hj, Option.isSome_some, Bool.toNat_true] at hreq
  rw [length_burst hr, harr] at hc ha
  have hlt := (lt_burstsPerTile_iff hr.burst).1 (h.next j hj).1
  rw [hrest]
  by_cases hlast : j.next + 1 < S.chip.burstsPerTile
  · have hlt' := (lt_burstsPerTile_iff hr.burst).1 hlast
    rw [Nat.add_one_mul] at hlt'
    have hmin : min S.chip.burstElems (S.chip.size * S.chip.size - j.next * S.chip.burstElems) =
        S.chip.burstElems := by omega
    have hopen : ¬ S.chip.size * S.chip.size ≤ j.next * S.chip.burstElems + S.chip.burstElems := by omega
    rw [hmin] at hc ha
    rw [if_pos hlast]
    refine ⟨fun i hi => ?_, ?_, ?_⟩
    · cases hi
      exact ⟨hlast, fun h => absurd hwait (Nat.ne_of_gt h)⟩
    · rw [ha, if_neg hopen]
      simp [Nat.add_one_mul]
    · simp [hc, hreq, hopen]
  · have hge := mt (lt_burstsPerTile_iff hr.burst).2 hlast
    rw [Nat.add_one_mul] at hge
    have hmin : j.next * S.chip.burstElems +
        min S.chip.burstElems (S.chip.size * S.chip.size - j.next * S.chip.burstElems) =
          S.chip.size * S.chip.size := by omega
    rw [hmin] at hc ha
    rw [if_neg hlast]
    exact ⟨nofun, by simp [ha], by simp [hc, hreq]⟩

/-- What a cycle leaves of the job, with the counts to match. -/
theorem Streaming.rest (hr : S.Regular) {t : Nat} (h : S.Streaming t) (hk : S.overflows t = false) :
    (∀ j, S.rest t = some j → j.next < S.chip.burstsPerTile ∧ (0 < j.wait → j.next = 0)) ∧
      S.arrived (t + 1) = ((S.rest t).map (·.next * S.chip.burstElems)).getD 0 ∧
      S.requested t = S.complete (t + 1) + (S.rest t).isSome.toNat := by
  have harr := h.arrived
  have hreq := h.requested
  cases hj : (S.reader t).job with
  | none =>
    obtain ⟨hb, hrest⟩ := burst_of_none hj
    obtain ⟨hc, ha⟩ := quiet_succ hr hb
    rw [hj] at harr hreq
    rw [hrest, hc, ha]
    exact ⟨nofun, harr, hreq⟩
  | some j =>
    by_cases hwait : 0 < j.wait
    · obtain ⟨hn, hw⟩ := h.next j hj
      obtain ⟨hb, hrest⟩ := wait_of_job hj hwait
      obtain ⟨hc, ha⟩ := quiet_succ hr hb
      rw [hj] at harr hreq
      rw [hrest, hc, ha]
      refine ⟨fun i hi => ?_, harr, hreq⟩
      cases hi
      exact ⟨hn, fun _ => hw hwait⟩
    · exact h.rest_burst hr hk hj (by omega)

theorem Streaming.succ (hr : S.Regular) {t : Nat} (h : S.Streaming t) (hk : S.overflows t = false) :
    S.Streaming (t + 1) := by
  obtain ⟨hn, ha, hq⟩ := h.rest hr hk
  cases hreq : S.request t with
  | none =>
    have hjob : (S.reader (t + 1)).job = S.rest t := by rw [job_succ, hreq]; rfl
    exact ⟨by rwa [hjob], by rwa [hjob], by rw [hjob, requested_succ, hreq, hq]; rfl⟩
  | some tile =>
    have hrest := hr.spaced t (by simp [hreq])
    have hjob : (S.reader (t + 1)).job = some ⟨tile, S.chip.latency, 0⟩ := by rw [job_succ, hreq]; rfl
    rw [hrest] at ha hq
    refine ⟨fun j hj => ?_, ?_, ?_⟩
    · rw [hjob] at hj
      cases hj
      have hsq : 0 < S.chip.size * S.chip.size := Nat.mul_pos hr.size hr.size
      exact ⟨(lt_burstsPerTile_iff hr.burst).2 (by simpa using hsq), fun _ => rfl⟩
    · rw [hjob, ha]
      simp
    · rw [hjob, requested_succ, hreq, hq]
      rfl

theorem streaming (hr : S.Regular) {t : Nat} (hk : S.KeptBefore t) : S.Streaming t := by
  induction t with
  | zero =>
    have hsq : 0 < S.chip.size * S.chip.size := Nat.mul_pos hr.size hr.size
    have hf : S.full 0 = false := decide_eq_false (Nat.not_le_of_lt hsq)
    refine ⟨nofun, by simp [arrived, hf, queue, TileQueue.empty, reader], ?_⟩
    simp [requested, complete, atSecond, atThird, atFront, gone, hf]
    rfl
  | succ t ih => exact (ih fun u hu => hk u (by omega)).succ hr (hk t (Nat.lt_succ_self t))

theorem KeptBefore.mono {s t : Nat} (h : S.KeptBefore t) (hst : s ≤ t) : S.KeptBefore s := fun u hu => h u (by omega)

/-! ## When a tile is complete -/

theorem job_isSome_of_rest {t : Nat} (h : (S.rest t).isSome = true) : (S.reader t).job.isSome = true := by
  cases hj : (S.reader t).job with
  | none => simp [(burst_of_none hj).2] at h
  | some j => rfl

theorem complete_mono (hr : S.Regular) {s t : Nat} (hst : s ≤ t) (hk : S.KeptBefore t) :
    S.complete s ≤ S.complete t := by
  induction t with
  | zero => rw [Nat.le_zero.1 hst]
  | succ t ih =>
    rcases Nat.lt_or_eq_of_le hst with hlt | rfl
    · have hk' := hk.mono (Nat.le_succ t)
      have h := streaming hr hk'
      have hnext := (h.rest hr (hk t (Nat.lt_succ_self t))).2.2
      have hnow := h.requested
      have hle := ih (by omega) hk'
      have hrest : (S.rest t).isSome.toNat ≤ (S.reader t).job.isSome.toNat := by
        cases hs : (S.rest t).isSome
        · exact Nat.zero_le _
        · rw [job_isSome_of_rest hs]
      omega
    · exact Nat.le_refl _

/-- A job that goes on has one cycle less to go. -/
theorem left_rest {t : Nat} {j : TileReader.Job} (hj : S.rest t = some j) : j.left S.chip + 1 = S.left t := by
  cases hi : (S.reader t).job with
  | none => rw [(burst_of_none hi).2] at hj; cases hj
  | some i =>
    simp only [left, hi, Option.map_some, Option.getD_some, TileReader.Job.left]
    by_cases hwait : 0 < i.wait
    · rw [(wait_of_job hi hwait).2] at hj
      cases hj
      simp only
      omega
    · rw [(burst_of_job hi (by omega)).2] at hj
      split at hj <;> cases hj
      simp only
      omega

/-- The last request came at least the access latency before its first burst is due. -/
theorem latency_le_of_job {q t : Nat} (hq : (S.request q).isSome = true) (hqt : q < t)
    (hlast : S.requested t = S.requested q + 1) {j : TileReader.Job} (hj : (S.reader t).job = some j) :
    q + 1 + S.chip.latency ≤ t + j.wait := by
  induction t generalizing j with
  | zero => cases hqt
  | succ t ih =>
    rw [requested_succ] at hlast
    rw [job_succ] at hj
    cases hreq : S.request t with
    | some a =>
      rw [hreq] at hj hlast
      cases hj
      rcases Nat.lt_or_eq_of_le (Nat.le_of_lt_succ hqt) with hlt | rfl
      · have hmono := S.requested_mono (show q + 1 ≤ t from hlt)
        rw [requested_succ, hq] at hmono
        simp only [Option.isSome_some, Bool.toNat_true] at hlast hmono
        omega
      · exact Nat.le_refl _
    | none =>
      rw [hreq] at hj hlast
      have hlt : q < t := by
        rcases Nat.lt_or_eq_of_le (Nat.le_of_lt_succ hqt) with hlt | rfl
        · exact hlt
        · rw [hreq] at hq
          cases hq
      have hrest : S.rest t = some j := hj
      cases hi : (S.reader t).job with
      | none => rw [(burst_of_none hi).2] at hrest; cases hrest
      | some i =>
        have hbefore := ih hlt hlast hi
        by_cases hwait : 0 < i.wait
        · rw [(wait_of_job hi hwait).2] at hrest
          cases hrest
          simp only
          omega
        · omega

/-- `i` cycles after the cycle of request `q`, its tile is complete, or it is the last one requested and its job has run
down since. -/
def Served (S : Supply) (q i : Nat) : Prop :=
  S.requested q + 1 ≤ S.complete (q + 1 + i) ∨ (S.requested (q + 1 + i) = S.requested q + 1 ∧
    0 < S.left (q + 1 + i) ∧ S.left (q + 1 + i) + i ≤ S.chip.latency + S.chip.burstsPerTile)

theorem Served.zero (hr : S.Regular) {q : Nat} (hq : (S.request q).isSome = true) (hk : S.KeptBefore (q + 1)) :
    S.Served q 0 := by
  obtain ⟨a, ha⟩ := Option.isSome_iff_exists.1 hq
  have hjob : (S.reader (q + 1)).job = some ⟨a, S.chip.latency, 0⟩ := by rw [job_succ, ha]; rfl
  have hn := ((streaming hr hk).next _ hjob).1
  have hleft : S.left (q + 1) = S.chip.latency + S.chip.burstsPerTile := by
    simp [left, hjob, TileReader.Job.left]
  refine Or.inr ⟨by simp [requested_succ, hq], ?_, ?_⟩
  · rw [Nat.add_zero, hleft]
    exact Nat.add_pos_right _ (Nat.zero_lt_of_lt hn)
  · rw [Nat.add_zero, hleft]

theorem Served.succ (hr : S.Regular) {q i : Nat} (h : S.Served q i) (hk : S.KeptBefore (q + 1 + i + 1)) :
    S.Served q (i + 1) := by
  have hbefore := hk.mono (Nat.le_succ (q + 1 + i))
  rw [Served, ← Nat.add_assoc]
  rcases h with hdone | ⟨hreq, hpos, hleft⟩
  · exact Or.inl (Nat.le_trans hdone (complete_mono hr (Nat.le_succ _) hk))
  · have hcount := ((streaming hr hbefore).rest hr (hk (q + 1 + i) (Nat.lt_succ_self _))).2.2
    cases hrest : S.rest (q + 1 + i) with
    | none =>
      rw [hrest] at hcount
      exact Or.inl (by simp at hcount; omega)
    | some j =>
      have hnext := left_rest hrest
      have hno : S.request (q + 1 + i) = none := by
        cases hq : S.request (q + 1 + i) with
        | none => rfl
        | some a => rw [hr.spaced _ (by simp [hq])] at hrest; cases hrest
      have hjob : (S.reader (q + 1 + i + 1)).job = some j := by rw [job_succ, hno, hrest]; rfl
      have hn := ((streaming hr hk).next j hjob).1
      refine Or.inr ⟨?_, ?_, ?_⟩
      · rw [requested_succ, hno, hreq]
        rfl
      · rw [left, hjob]
        exact Nat.add_pos_right _ (Nat.sub_pos_of_lt hn)
      · rw [left, hjob, Option.map_some, Option.getD_some]
        omega

/-- A requested tile is complete once the access latency and its bursts are over. -/
theorem complete_of_request (hr : S.Regular) {q t : Nat} (hq : (S.request q).isSome = true)
    (ht : q + 1 + S.chip.latency + S.chip.burstsPerTile ≤ t) (hk : S.KeptBefore t) :
    S.requested q + 1 ≤ S.complete t := by
  have key : ∀ i, S.KeptBefore (q + 1 + i) → S.Served q i := by
    intro i
    induction i with
    | zero => exact Served.zero hr hq
    | succ i ih => exact fun hk' => (ih (hk'.mono (Nat.le_succ _))).succ hr hk'
  obtain ⟨i, rfl⟩ : ∃ i, t = q + 1 + i := ⟨t - (q + 1), by omega⟩
  rcases key i hk with h | ⟨-, hpos, hleft⟩
  · exact h
  · omega

end Supply

end Systolic
