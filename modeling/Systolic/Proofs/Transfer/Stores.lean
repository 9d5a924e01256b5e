import Mathlib.Data.Nat.ModEq
import Systolic.Proofs.Course.Host
import Systolic.Proofs.Storage.Shape

/-!
# Transfers carried out at once

A host instruction, carried out at once, copies its rows in ascending order (`Stores.perform`). Copies can be taken up
row by row from the first one (`Sequential.copyRows_succ_left`), and rows that are copied without wrapping around onto one
another can be read back (`Sequential.read_copyRows`).
-/

namespace Systolic

/-! ## Copied rows -/

namespace Sequential

/-- The first row that is copied, then the other ones. -/
theorem copyRows_succ_left (src : RowStore) (a b : UInt64) (dst : RowStore) (n : Nat) :
    copyRows src a b dst (n + 1) = copyRows src (a + 1) (b + 1) (dst.write b (src.read a)) n := by
  induction n with
  | zero => simp [copyRows]
  | succ n ih =>
    have hnext : ∀ x : UInt64, x + UInt64.ofNat (n + 1) = x + 1 + UInt64.ofNat n := by
      intro x
      rw [← add_ofNat_succ, UInt64.add_assoc, UInt64.add_assoc, UInt64.add_comm 1]
    rw [copyRows, ih, hnext, hnext, ← copyRows]

/-- A single row. -/
theorem copyRows_one (src : RowStore) (a b : UInt64) (dst : RowStore) :
    copyRows src a b dst (1 : UInt64).toNat = dst.write b (src.read a) := by
  change copyRows src a b dst (0 + 1) = _
  rw [copyRows_succ_left]
  rfl

@[simp] theorem depth_copyRows (src : RowStore) (a b : UInt64) (dst : RowStore) (n : Nat) :
    (copyRows src a b dst n).depth = dst.depth := by
  induction n with
  | zero => rfl
  | succ n ih => rw [copyRows, RowStore.depth_write, ih]

@[simp] theorem width_copyRows (src : RowStore) (a b : UInt64) (dst : RowStore) (n : Nat) :
    (copyRows src a b dst n).width = dst.width := by
  induction n with
  | zero => rfl
  | succ n ih => rw [copyRows, RowStore.width_write, ih]

/-- Rows that do not wrap around onto one another are all there when they have been copied. -/
theorem read_copyRows {src dst : RowStore} {a b : UInt64} {n : Nat} (hn : n ≤ dst.depth) (hb : b.toNat + n ≤ 2 ^ 64)
    {i : Nat} (hi : i < n) : (copyRows src a b dst n).read (b + UInt64.ofNat i) =
      (src.read (a + UInt64.ofNat i)).fit dst.width := by
  induction n with
  | zero => cases hi
  | succ n ih =>
    have haddr : ∀ k ≤ n, (b + UInt64.ofNat k).toNat = b.toNat + k := by
      intro k hk
      rw [UInt64.toNat_add, UInt64.toNat_ofNat', Nat.mod_eq_of_lt (by omega : k < 2 ^ 64), Nat.mod_eq_of_lt (by omega)]
    have hdepth : 0 < (copyRows src a b dst n).depth := by
      rw [depth_copyRows]
      omega
    rw [copyRows, RowStore.read_write hdepth, width_copyRows]
    rcases Nat.lt_or_eq_of_le (Nat.le_of_lt_succ hi) with hlt | rfl
    · have hslot : (copyRows src a b dst n).slot (b + UInt64.ofNat i) ≠
          (copyRows src a b dst n).slot (b + UInt64.ofNat n) := by
        rw [RowStore.slot, RowStore.slot, depth_copyRows, haddr i (by omega), haddr n (Nat.le_refl _)]
        intro heq
        have hmod : i ≡ n [MOD dst.depth] := Nat.ModEq.add_left_cancel' b.toNat heq
        have := Nat.ModEq.eq_of_lt_of_lt hmod (by omega) (by omega)
        omega
      rw [if_neg hslot]
      exact ih (by omega) (by omega) hlt
    · rw [if_pos rfl]

/-- A counted copy moves its first row, and goes on if more than one is left. -/
theorem copyRows_of_ne_zero (src : RowStore) (a b : UInt64) (dst : RowStore) {n : UInt64} (hn : n ≠ 0) :
    copyRows src a b dst n.toNat =
      if 1 < n then copyRows src (a + 1) (b + 1) (dst.write b (src.read a)) (n - 1).toNat
      else dst.write b (src.read a) := by
  by_cases hlt : 1 < n
  · rw [if_pos hlt, ← toNat_sub_one hlt, copyRows_succ_left]
  · have hone : n.toNat = 0 + 1 := by
      have hpos := toNat_pos_iff.2 hn
      have hle : n.toNat ≤ 1 := UInt64.le_iff_toNat_le.1 (UInt64.not_lt.1 hlt)
      omega
    rw [if_neg hlt, hone, copyRows_succ_left]
    rfl

end Sequential

/-- A copy keeps the shape of the memory. -/
theorem RowStore.Fits.copyRows {dst : RowStore} {depth width : Nat} (h : dst.Fits depth width) (src : RowStore)
    (a b : UInt64) (n : Nat) : (Sequential.copyRows src a b dst n).Fits depth width := by
  induction n with
  | zero => exact h
  | succ n ih => exact ih.write _ _

/-! ## The two memories -/

/-- The scratchpad and the host memory. -/
structure Stores where
  pad : RowStore
  host : RowStore
  deriving DecidableEq

/-- The scratchpad and the host memory of a machine. -/
def Memories.stores (m : Memories) : Stores := ⟨m.pad, m.host⟩

namespace Stores

/-- A host instruction, carried out at once. A plain one copies its rows one by one in ascending order, an indirect one
copies a single row, to or from the scratchpad row that its pointer names, and a converting host read places a jump
row. -/
def perform (chip : Chip) (s : Stores) (i : Instruction) : Stores :=
  match i.opcode with
  | .readHost =>
    if i.has Instruction.convertBit then { s with pad := s.pad.write i.padAddr (HostLink.jumpRow chip i.memAddr) }
    else if i.has Instruction.switchBit then
      { s with pad := s.pad.write (Sequencer.indirect chip s.pad i.padAddr) (s.host.read i.memAddr) }
    else { s with pad := Sequential.copyRows s.host i.memAddr i.padAddr s.pad i.length.toNat }
  | .writeHost =>
    if i.has Instruction.switchBit then
      { s with host := s.host.write i.memAddr (s.pad.read (Sequencer.indirect chip s.pad i.padAddr)) }
    else { s with host := Sequential.copyRows s.pad i.padAddr i.memAddr s.host i.length.toNat }
  | _ => s

/-- A row lands in the scratchpad. -/
def land (s : Stores) (w : Option RowStore.Write) : Stores := { s with pad := s.pad.commit w }

/-- What a host read that may be running leaves in the end. -/
def reads (s : Stores) : Option HostLink.Job → Stores
  | some j => { s with pad := Sequential.copyRows s.host j.hostAddr j.padAddr s.pad j.remaining.toNat }
  | none => s

/-- What a host write that may be running leaves in the end. -/
def writes (s : Stores) : Option HostLink.Job → Stores
  | some j => { s with host := Sequential.copyRows s.pad j.padAddr j.hostAddr s.host j.remaining.toNat }
  | none => s

/-- Nothing is left of a job without rows. -/
theorem reads_of_filter (s : Stores) {job : Option HostLink.Job} (h : job.filter (·.remaining != 0) = none) :
    s.reads job = s := by
  cases job with
  | none => rfl
  | some j =>
    have hzero : j.remaining = 0 := by simpa using h
    rw [reads, hzero]
    rfl

theorem writes_of_filter (s : Stores) {job : Option HostLink.Job} (h : job.filter (·.remaining != 0) = none) :
    s.writes job = s := by
  cases job with
  | none => rfl
  | some j =>
    have hzero : j.remaining = 0 := by simpa using h
    rw [writes, hzero]
    rfl

section Next

variable (s : Stores) {j : HostLink.Job} (hj : j.remaining ≠ 0)
include hj

/-- A read moves its next row, and then the others. -/
theorem reads_next? : (s.land (some ⟨j.padAddr, s.host.read j.hostAddr⟩)).reads j.next? = s.reads (some j) := by
  rw [reads, Sequential.copyRows_of_ne_zero _ _ _ _ hj, HostLink.Job.next?]
  by_cases hlt : 1 < j.remaining
  · rw [if_pos hlt, if_pos hlt]
    rfl
  · rw [if_neg hlt, if_neg hlt]
    rfl

/-- A write moves its next row, and then the others. -/
theorem writes_next? : writes { s with host := s.host.write j.hostAddr (s.pad.read j.padAddr) } j.next? =
    s.writes (some j) := by
  rw [writes.eq_1 s, Sequential.copyRows_of_ne_zero _ _ _ _ hj, HostLink.Job.next?]
  by_cases hlt : 1 < j.remaining
  · rw [if_pos hlt, if_pos hlt]
    rfl
  · rw [if_neg hlt, if_neg hlt]
    rfl

end Next

/-! ## There and back -/

/-- The two memories have the shape that the chip gives them. -/
structure Fits (s : Stores) (chip : Chip) : Prop where
  pad : s.pad.Fits chip.padRows chip.size
  host : s.host.Fits chip.hostRows chip.size

variable {chip : Chip} {s : Stores} (hs : s.Fits chip)
include hs

theorem Fits.perform (i : Instruction) : (s.perform chip i).Fits chip := by
  obtain ⟨hpad, hhost⟩ := hs
  unfold Stores.perform
  split
  · split
    · exact ⟨hpad.write _ _, hhost⟩
    · split
      · exact ⟨hpad.write _ _, hhost⟩
      · exact ⟨hpad.copyRows _ _ _ _, hhost⟩
  · split
    · exact ⟨hpad, hhost.write _ _⟩
    · exact ⟨hpad, hhost.copyRows _ _ _ _⟩
  · exact ⟨hpad, hhost⟩

theorem Fits.foldl_perform (is : List Instruction) : (is.foldl (Stores.perform chip) s).Fits chip := by
  induction is generalizing s with
  | nil => exact hs
  | cons i is ih => exact ih (hs.perform i)

omit hs in
/-- A plain read copies its rows to the scratchpad. -/
theorem perform_readHost (h u len : UInt64) : s.perform chip (.readHost h u len) =
    { s with pad := Sequential.copyRows s.host h u s.pad len.toNat } := by
  simp [perform, Instruction.readHost, Instruction.has]

omit hs in
/-- A plain write copies its rows to the host. -/
theorem perform_writeHost (h u len : UInt64) : s.perform chip (.writeHost h u len) =
    { s with host := Sequential.copyRows s.pad u h s.host len.toNat } := by
  simp [perform, Instruction.writeHost, Instruction.has]

/-- **There and back.** Rows that are read from the host and written back to it arrive as they were, wherever they come
from and go to, if they fit in both memories without wrapping around onto one another. -/
theorem Fits.read_round_trip {h u h' len : UInt64} (hpad : len.toNat ≤ chip.padRows) (hhost : len.toNat ≤ chip.hostRows)
    (hu : u.toNat + len.toNat ≤ 2 ^ 64) (hh : h'.toNat + len.toNat ≤ 2 ^ 64) {i : Nat} (hi : i < len.toNat) :
    (((s.perform chip (.readHost h u len)).perform chip (.writeHost h' u len)).host.read (h' + UInt64.ofNat i)) =
      s.host.read (h + UInt64.ofNat i) := by
  have hthere : (Sequential.copyRows s.host h u s.pad len.toNat).read (u + UInt64.ofNat i) =
      (s.host.read (h + UInt64.ofNat i)).fit s.pad.width :=
    Sequential.read_copyRows (hs.pad.depth_eq ▸ hpad) hu hi
  have hback : (Sequential.copyRows (Sequential.copyRows s.host h u s.pad len.toNat) u h' s.host len.toNat).read
      (h' + UInt64.ofNat i) =
      ((Sequential.copyRows s.host h u s.pad len.toNat).read (u + UInt64.ofNat i)).fit s.host.width :=
    Sequential.read_copyRows (hs.host.depth_eq ▸ hhost) hh hi
  have hlength : (s.host.read (h + UInt64.ofNat i)).length = chip.size := hs.host.length_read (by omega) _
  rw [perform_readHost, perform_writeHost, hback, hthere, hs.pad.width_eq, hs.host.width_eq, ← hlength, Row.fit_length,
    Row.fit_length]

end Stores

end Systolic
