import Systolic.Proofs.Course.Dispatch
import Systolic.Proofs.Sequential.Basic
import Systolic.Proofs.Word.Offset

/-!
# Transfers in a course

The host link on its own, from an idle cycle on: a host read copies its rows to the scratchpad one by one (`read_rows`), a
host write copies them to the host (`write_rows`), and a jump row is placed (`place_jump`). After the busy time of the
command the link is idle again.
-/

namespace Systolic

namespace HostLink

/-- The job once `i` rows have been moved. -/
def Job.after (j : Job) (i : Nat) : Job :=
  ⟨j.hostAddr + UInt64.ofNat i, j.padAddr + UInt64.ofNat i, j.remaining - UInt64.ofNat i⟩

/-- The job of a transfer in which `i` rows have been moved, if a row is left. -/
def jobAt (t : Transfer) (i : Nat) : Option Job :=
  if i < t.length.toNat then some ((Job.ofTransfer t).after i) else none

/-- The command is one for the host link. -/
def takes : Command → Bool
  | .readHost _ | .writeHost _ | .placeJump _ _ => true
  | _ => false

/-- What a cycle of the link brings up lands in the next one. -/
theorem response_step (link : HostLink) (chip : Chip) (issue : Option Command) (pad host : RowStore) :
    (link.step chip issue pad host).1.response.get? = link.respond? chip host issue := by
  rw [step]
  cases link.respond? chip host issue <;> rfl

section Quiet

variable (link : HostLink) {issue : Option Command} (h : ∀ c, issue = some c → takes c = false)
include h

theorem reading?_of_quiet : link.reading? issue = link.reading.filter (·.remaining != 0) := by
  unfold reading?
  cases issue with
  | none => rfl
  | some c =>
    have hc := h c rfl
    cases c <;> first | rfl | simp [takes] at hc

theorem writing?_of_quiet : link.writing? issue = link.writing.filter (·.remaining != 0) := by
  unfold writing?
  cases issue with
  | none => rfl
  | some c =>
    have hc := h c rfl
    cases c <;> first | rfl | simp [takes] at hc

theorem respond?_of_quiet (chip : Chip) (host : RowStore) : link.respond? chip host issue =
    (link.reading.filter (·.remaining != 0)).map fun j => ⟨j.padAddr, host.read j.hostAddr⟩ := by
  unfold respond?
  rw [reading?_of_quiet link h]
  cases link.reading.filter (·.remaining != 0) with
  | some j => rfl
  | none =>
    cases issue with
    | none => rfl
    | some c =>
      have hc := h c rfl
      cases c <;> first | rfl | simp [takes] at hc

end Quiet

theorem jobAt_zero (t : Transfer) : (some (Job.ofTransfer t)).filter (·.remaining != 0) = jobAt t 0 := by
  by_cases h : t.length = 0
  · simp [jobAt, Job.ofTransfer, h]
  · have hlt := toNat_pos_iff.2 h
    simp [jobAt, Job.ofTransfer, Job.after, hlt, h]

theorem filter_jobAt (t : Transfer) (i : Nat) : (jobAt t i).filter (·.remaining != 0) = jobAt t i := by
  unfold jobAt
  by_cases h : i < t.length.toNat
  · have hne : ¬ t.length - UInt64.ofNat i = 0 := by
      rw [sub_ofNat_eq_zero_iff (by omega)]
      omega
    simp [h, Job.ofTransfer, Job.after, hne]
  · simp [h]

theorem bind_jobAt (t : Transfer) (i : Nat) : (jobAt t i).bind (·.next?) = jobAt t (i + 1) := by
  unfold jobAt
  by_cases h : i < t.length.toNat
  · simp only [h, if_true, Option.bind_some, Job.next?, Job.after, Job.ofTransfer,
      one_lt_sub_ofNat_iff (Nat.le_of_lt h), add_ofNat_succ, sub_ofNat_succ]
  · rw [if_neg h, if_neg (by omega)]
    rfl

end HostLink

namespace Course

variable (C : Course)

def link (t : Nat) : HostLink := (C.free t).pipeline.hostLink

/-- What the host link does in cycle `t`. -/
def transferred (t : Nat) : HostLink.Output :=
  ((C.link t).step C.chip (C.issue t) (C.memories t).pad (C.memories t).host).2

/-- The host link has nothing to do. -/
structure LinkIdle (t : Nat) : Prop where
  reading : (C.link t).reading = none
  writing : (C.link t).writing = none
  response : (C.link t).response.get? = none

/-- Nothing is written from outside. -/
def Closed : Prop := ∀ t, C.pokes t = []

variable {C}

theorem memories_succ (h : C.Closed) (t : Nat) : C.memories (t + 1) = (C.free t).step.1.memories := by
  rw [memories, free, h (t + 1)]
  rfl

theorem pad_succ (h : C.Closed) (t : Nat) : (C.memories (t + 1)).pad =
    ((C.memories t).pad.commit (C.act t).write).commit (C.transferred t).padWrite := by
  have hstep : (C.free t).step.1.memories.pad = ((C.memories t).pad.commit
      ((C.free t).pipeline.activator.step (C.free t).chip ((C.issue t).bind (·.activation?))
        (C.memories t).acc).2.write).commit
        ((C.link t).step (C.free t).chip (C.issue t) (C.memories t).pad (C.memories t).host).2.padWrite := rfl
  rw [memories_succ h, hstep, chip_free]
  rfl

theorem host_succ (h : C.Closed) (t : Nat) : (C.memories (t + 1)).host =
    (C.memories t).host.commit (C.transferred t).hostWrite := by
  have hstep : (C.free t).step.1.memories.host = (C.memories t).host.commit
      ((C.link t).step (C.free t).chip (C.issue t) (C.memories t).pad (C.memories t).host).2.hostWrite := rfl
  rw [memories_succ h, hstep, chip_free]
  rfl

theorem link_succ (t : Nat) : C.link (t + 1) =
    ((C.link t).step C.chip (C.issue t) (C.memories t).pad (C.memories t).host).1 := by
  have hstep : (C.free t).step.1.pipeline.hostLink =
      ((C.link t).step (C.free t).chip (C.issue t) (C.memories t).pad (C.memories t).host).1 := rfl
  rw [link, pipeline_free_succ, hstep, chip_free]

/-! ## One cycle of the link -/

theorem reading_succ (t : Nat) : (C.link (t + 1)).reading = ((C.link t).reading? (C.issue t)).bind (·.next?) := by
  rw [link_succ]
  rfl

theorem writing_succ (t : Nat) : (C.link (t + 1)).writing = ((C.link t).writing? (C.issue t)).bind (·.next?) := by
  rw [link_succ]
  rfl

theorem response_succ (t : Nat) : (C.link (t + 1)).response.get? =
    (C.link t).respond? C.chip (C.memories t).host (C.issue t) := by
  rw [link_succ, HostLink.response_step]

theorem padWrite_eq (t : Nat) : (C.transferred t).padWrite = (C.link t).response.get? := rfl

theorem hostWrite_eq (t : Nat) : (C.transferred t).hostWrite =
    ((C.link t).writing? (C.issue t)).map fun j => ⟨j.hostAddr, (C.memories t).pad.read j.padAddr⟩ := rfl

/-- A command for another unit leaves an idle link idle. -/
theorem LinkIdle.step {t : Nat} (h : C.LinkIdle t) (hi : ∀ c, C.issue t = some c → HostLink.takes c = false) :
    C.LinkIdle (t + 1) ∧ (C.transferred t).padWrite = none ∧ (C.transferred t).hostWrite = none := by
  refine ⟨⟨?_, ?_, ?_⟩, h.response, ?_⟩
  · rw [reading_succ, HostLink.reading?_of_quiet _ hi, h.reading]
    rfl
  · rw [writing_succ, HostLink.writing?_of_quiet _ hi, h.writing]
    rfl
  · rw [response_succ, HostLink.respond?_of_quiet _ hi, h.reading]
    rfl
  · rw [hostWrite_eq, HostLink.writing?_of_quiet _ hi, h.writing]
    rfl

theorem no_takes_of_none {t : Nat} (h : C.issue t = none) : ∀ c, C.issue t = some c → HostLink.takes c = false :=
  fun c hc => by rw [h] at hc; cases hc

/-! ## Host reads -/

/-- What a host read that is issued in cycle `d` has done when `k` of its rows have landed. -/
structure Reads (C : Course) (d : Nat) (T : Transfer) (k : Nat) : Prop where
  pad : (C.memories (d + 1 + k)).pad =
    Sequential.copyRows (C.memories d).host T.hostAddr T.padAddr (C.memories d).pad k
  host : (C.memories (d + 1 + k)).host = (C.memories d).host
  reading : (C.link (d + 1 + k)).reading = HostLink.jobAt T (k + 1)
  writing : (C.link (d + 1 + k)).writing = none
  response : (C.link (d + 1 + k)).response.get? = (HostLink.jobAt T k).map fun j =>
    ⟨j.padAddr, (C.memories d).host.read j.hostAddr⟩

section Read

variable (hclosed : C.Closed) {d : Nat} {T : Transfer}
include hclosed

theorem Reads.zero (hidle : C.LinkIdle d) (hissue : C.issue d = some (.readHost T)) (hact : (C.act d).write = none) :
    C.Reads d T 0 := by
  have hreading : (C.link d).reading? (C.issue d) = HostLink.jobAt T 0 := by
    rw [hissue]
    exact HostLink.jobAt_zero T
  have hwriting : (C.link d).writing? (C.issue d) = none := by
    simp [hissue, HostLink.writing?, hidle.writing]
  refine ⟨?_, ?_, ?_, ?_, ?_⟩
  · rw [Nat.add_zero, pad_succ hclosed, hact, padWrite_eq, hidle.response]
    rfl
  · rw [Nat.add_zero, host_succ hclosed, hostWrite_eq, hwriting]
    rfl
  · rw [Nat.add_zero, reading_succ, hreading, HostLink.bind_jobAt]
  · rw [Nat.add_zero, writing_succ, hwriting]
    rfl
  · have hrespond : (C.link d).respond? C.chip (C.memories d).host (C.issue d) = (HostLink.jobAt T 0).map fun j =>
        ⟨j.padAddr, (C.memories d).host.read j.hostAddr⟩ := by
      unfold HostLink.respond?
      rw [hreading, hissue]
      cases HostLink.jobAt T 0 <;> rfl
    rw [Nat.add_zero, response_succ, hrespond]

theorem Reads.succ {k : Nat} (h : C.Reads d T k) (hk : k < T.length.toNat) (hissue : C.issue (d + 1 + k) = none)
    (hact : (C.act (d + 1 + k)).write = none) : C.Reads d T (k + 1) := by
  have hquiet := no_takes_of_none hissue
  refine ⟨?_, ?_, ?_, ?_, ?_⟩
  · have hjob : HostLink.jobAt T k = some ((HostLink.Job.ofTransfer T).after k) := if_pos hk
    rw [← Nat.add_assoc, pad_succ hclosed, hact, padWrite_eq, h.response, h.pad, hjob]
    rfl
  · rw [← Nat.add_assoc, host_succ hclosed, hostWrite_eq, HostLink.writing?_of_quiet _ hquiet, h.writing, h.host]
    rfl
  · rw [← Nat.add_assoc, reading_succ, HostLink.reading?_of_quiet _ hquiet, h.reading, HostLink.filter_jobAt,
      HostLink.bind_jobAt]
  · rw [← Nat.add_assoc, writing_succ, HostLink.writing?_of_quiet _ hquiet, h.writing]
    rfl
  · rw [← Nat.add_assoc, response_succ, HostLink.respond?_of_quiet _ hquiet, h.reading, HostLink.filter_jobAt, h.host]

/-- **Host reads** copy their rows one by one, and leave the link idle. -/
theorem read_rows (hidle : C.LinkIdle d) (hissue : C.issue d = some (.readHost T))
    (hno : ∀ k < T.length.toNat, C.issue (d + 1 + k) = none)
    (hact : ∀ k ≤ T.length.toNat, (C.act (d + k)).write = none) :
    (C.memories (d + 1 + T.length.toNat)).pad =
        Sequential.copyRows (C.memories d).host T.hostAddr T.padAddr (C.memories d).pad T.length.toNat ∧
      (C.memories (d + 1 + T.length.toNat)).host = (C.memories d).host ∧ C.LinkIdle (d + 1 + T.length.toNat) := by
  have key : ∀ k ≤ T.length.toNat, C.Reads d T k := by
    intro k
    induction k with
    | zero => exact fun _ => Reads.zero hclosed hidle hissue (hact 0 (Nat.zero_le _))
    | succ k ih =>
      intro hk
      have hquiet := hact (k + 1) hk
      rw [show d + (k + 1) = d + 1 + k by omega] at hquiet
      exact (ih (by omega)).succ hclosed hk (hno k hk) hquiet
  have h := key T.length.toNat (Nat.le_refl _)
  refine ⟨h.pad, h.host, h.reading.trans (if_neg (by omega)), h.writing, ?_⟩
  rw [h.response, HostLink.jobAt, if_neg (by omega)]
  rfl

end Read

/-! ## Host writes -/

/-- What a host write that is issued in cycle `d` has done after `k + 1` cycles. -/
structure Writes (C : Course) (d : Nat) (T : Transfer) (k : Nat) : Prop where
  pad : (C.memories (d + 1 + k)).pad = (C.memories d).pad
  host : (C.memories (d + 1 + k)).host =
    Sequential.copyRows (C.memories d).pad T.padAddr T.hostAddr (C.memories d).host (min (k + 1) T.length.toNat)
  reading : (C.link (d + 1 + k)).reading = none
  writing : (C.link (d + 1 + k)).writing = HostLink.jobAt T (k + 1)
  response : (C.link (d + 1 + k)).response.get? = none

section Write

variable (hclosed : C.Closed) {d : Nat} {T : Transfer}
include hclosed

/-- What the row of job `k` leaves in the host memory. -/
theorem host_of_writing {t k : Nat} (hw : (C.link t).writing? (C.issue t) = HostLink.jobAt T k)
    (hpad : (C.memories t).pad = (C.memories d).pad) (hhost : (C.memories t).host =
      Sequential.copyRows (C.memories d).pad T.padAddr T.hostAddr (C.memories d).host (min k T.length.toNat)) :
    (C.memories (t + 1)).host =
      Sequential.copyRows (C.memories d).pad T.padAddr T.hostAddr (C.memories d).host (min (k + 1) T.length.toNat) := by
  rw [host_succ hclosed, hostWrite_eq, hw, hhost, hpad]
  by_cases hk : k < T.length.toNat
  · rw [HostLink.jobAt, if_pos hk, Nat.min_eq_left (by omega), Nat.min_eq_left (by omega)]
    rfl
  · rw [HostLink.jobAt, if_neg hk, Nat.min_eq_right (by omega), Nat.min_eq_right (by omega)]
    rfl

theorem Writes.zero (hidle : C.LinkIdle d) (hissue : C.issue d = some (.writeHost T)) (hact : (C.act d).write = none) :
    C.Writes d T 0 := by
  have hwriting : (C.link d).writing? (C.issue d) = HostLink.jobAt T 0 := by
    rw [hissue]
    exact HostLink.jobAt_zero T
  have hreading : (C.link d).reading? (C.issue d) = none := by
    simp [hissue, HostLink.reading?, hidle.reading]
  refine ⟨?_, ?_, ?_, ?_, ?_⟩
  · rw [Nat.add_zero, pad_succ hclosed, hact, padWrite_eq, hidle.response]
    rfl
  · exact host_of_writing hclosed hwriting rfl (by rw [Nat.zero_min]; rfl)
  · rw [Nat.add_zero, reading_succ, hreading]
    rfl
  · rw [Nat.add_zero, writing_succ, hwriting, HostLink.bind_jobAt]
  · have hrespond : (C.link d).respond? C.chip (C.memories d).host (C.issue d) = none := by
      unfold HostLink.respond?
      rw [hreading, hissue]
    rw [Nat.add_zero, response_succ, hrespond]

theorem Writes.succ {k : Nat} (h : C.Writes d T k) (hissue : C.issue (d + 1 + k) = none)
    (hact : (C.act (d + 1 + k)).write = none) : C.Writes d T (k + 1) := by
  have hquiet := no_takes_of_none hissue
  have hwriting : (C.link (d + 1 + k)).writing? (C.issue (d + 1 + k)) = HostLink.jobAt T (k + 1) := by
    rw [HostLink.writing?_of_quiet _ hquiet, h.writing, HostLink.filter_jobAt]
  refine ⟨?_, host_of_writing hclosed hwriting h.pad h.host, ?_, ?_, ?_⟩
  · rw [← Nat.add_assoc, pad_succ hclosed, hact, padWrite_eq, h.response]
    exact h.pad
  · rw [← Nat.add_assoc, reading_succ, HostLink.reading?_of_quiet _ hquiet, h.reading]
    rfl
  · rw [← Nat.add_assoc, writing_succ, hwriting, HostLink.bind_jobAt]
  · rw [← Nat.add_assoc, response_succ, HostLink.respond?_of_quiet _ hquiet, h.reading]
    rfl

/-- **Host writes** copy their rows one by one, and leave the link idle. -/
theorem write_rows (hidle : C.LinkIdle d) (hissue : C.issue d = some (.writeHost T))
    (hno : ∀ k < T.length.toNat, C.issue (d + 1 + k) = none)
    (hact : ∀ k ≤ T.length.toNat, (C.act (d + k)).write = none) :
    (C.memories (d + 1 + T.length.toNat)).pad = (C.memories d).pad ∧
      (C.memories (d + 1 + T.length.toNat)).host =
        Sequential.copyRows (C.memories d).pad T.padAddr T.hostAddr (C.memories d).host T.length.toNat ∧
      C.LinkIdle (d + 1 + T.length.toNat) := by
  have key : ∀ k ≤ T.length.toNat, C.Writes d T k := by
    intro k
    induction k with
    | zero => exact fun _ => Writes.zero hclosed hidle hissue (hact 0 (Nat.zero_le _))
    | succ k ih =>
      intro hk
      have hquiet := hact (k + 1) hk
      rw [show d + (k + 1) = d + 1 + k by omega] at hquiet
      exact (ih (by omega)).succ hclosed (hno k hk) hquiet
  have h := key T.length.toNat (Nat.le_refl _)
  have hhost := h.host
  rw [Nat.min_eq_right (by omega)] at hhost
  exact ⟨h.pad, hhost, h.reading, h.writing.trans (if_neg (by omega)), h.response⟩

end Write

/-! ## Jump rows -/

/-- A jump row is placed two cycles after its command, and the link is idle again. -/
theorem place_jump (hclosed : C.Closed) {d : Nat} {target addr : UInt64} (hidle : C.LinkIdle d)
    (hissue : C.issue d = some (.placeJump target addr)) (hno : C.issue (d + 1) = none)
    (hact : (C.act d).write = none) (hact' : (C.act (d + 1)).write = none) :
    (C.memories (d + 2)).pad = (C.memories d).pad.write addr (HostLink.jumpRow C.chip target) ∧
      (C.memories (d + 2)).host = (C.memories d).host ∧ C.LinkIdle (d + 2) := by
  have hreading : (C.link d).reading? (C.issue d) = none := by
    simp [hissue, HostLink.reading?, hidle.reading]
  have hwriting : (C.link d).writing? (C.issue d) = none := by
    simp [hissue, HostLink.writing?, hidle.writing]
  have hrespond : (C.link d).respond? C.chip (C.memories d).host (C.issue d) =
      some ⟨addr, HostLink.jumpRow C.chip target⟩ := by
    unfold HostLink.respond?
    rw [hreading, hissue]
  have hread1 : (C.link (d + 1)).reading = none := by rw [reading_succ, hreading]; rfl
  have hwrite1 : (C.link (d + 1)).writing = none := by rw [writing_succ, hwriting]; rfl
  have hquiet := no_takes_of_none hno
  refine ⟨?_, ?_, ?_, ?_, ?_⟩
  · rw [pad_succ hclosed, pad_succ hclosed, hact, hact', padWrite_eq, padWrite_eq, response_succ, hrespond,
      hidle.response]
    rfl
  · rw [host_succ hclosed, host_succ hclosed, hostWrite_eq, hostWrite_eq, hwriting,
      HostLink.writing?_of_quiet _ hquiet, hwrite1]
    rfl
  · rw [reading_succ, HostLink.reading?_of_quiet _ hquiet, hread1]
    rfl
  · rw [writing_succ, HostLink.writing?_of_quiet _ hquiet, hwrite1]
    rfl
  · rw [response_succ, HostLink.respond?_of_quiet _ hquiet, hread1]
    rfl

end Course

end Systolic
