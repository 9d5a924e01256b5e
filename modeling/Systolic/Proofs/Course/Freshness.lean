import Systolic.Proofs.Course.Overflow
import Systolic.Proofs.Course.RowWrites

/-!
# Host instructions find fresh rows

Rows reach the scratchpad from the activation unit in the cycle in which they are turned, and from the host link one
cycle after they were read. An activation holds every dispatch back until its last row is written, and a host
instruction also waits for the host link (`busy_of_issued`), whose busy time outlasts the response register if the span
fits. So when a host instruction is dispatched, all that the instructions before it write has been written
(`Fills.lt_of_issued`), without a `SYNC` in between: the pointer of an indirect transfer and the rows that a host write
takes are read from all of it (`fresh_of_issued`). It need not have been written in the order of the program: an
activation does not wait for the host link, and may overtake a host read (`not_ordered`).
-/

namespace Systolic.Course

variable (C : Course)

/-- Instruction `i`, dispatched by tick `d`, makes a write to the scratchpad in cycle `t`: a row that an activation has
turned, a row from the host or a jump row. -/
inductive Fills (d : Nat) (i : Instruction) (t : Nat) : RowStore.Write → Prop
  | turned {k : Nat} {row : Row} (h : C.Turns d i k t) (hrow : (C.turned t i k).writeback? = some row) :
      Fills d i t ⟨i.padAddr + UInt64.ofNat k, row⟩
  | landed {k : Nat} (h : C.Lands d i k t) : Fills d i t ⟨(C.asked d i).padAddr + UInt64.ofNat k,
      (C.machine (d + 1 + k)).memories.host.read ((C.asked d i).hostAddr + UInt64.ofNat k)⟩
  | placed (h : C.Places d i t) : Fills d i t ⟨i.padAddr, HostLink.jumpRow C.chip i.memAddr⟩

/-- What the scratchpad takes over in cycle `t`, one after the other. -/
def padWrites (t : Nat) : List RowStore.Write :=
  (C.machine t).activated.write.toList ++ (C.machine t).transferred.padWrite.toList

/-- What the scratchpad has taken over before cycle `t`, the oldest first. -/
def padLog (t : Nat) : List RowStore.Write := (List.range t).flatMap C.padWrites

/-- The scratchpad of the start after the writes of `log`. -/
def padAfter (log : List RowStore.Write) : RowStore := log.foldl RowStore.apply (C.machine 0).memories.pad

/-- What instruction `i`, dispatched by tick `d`, finds in the scratchpad. -/
structure Fresh (d : Nat) (i : Instruction) : Prop where
  /-- Whatever an instruction dispatched before writes has been written before cycle `d`. -/
  made : ∀ e j t w, e < d → C.Fills e j t w → t < d ∧ w ∈ C.padWrites t
  /-- Those writes and no others make up the scratchpad at the start of cycle `d`. -/
  pad : (C.machine d).memories.pad = C.padAfter (C.padLog d)
  log : ∀ w, w ∈ C.padLog d ↔ ∃ e j t, e < d ∧ C.Fills e j t w
  /-- They were made in the order of the program, except that an activation may get ahead of the rows of a host read that
  are still to come when it is dispatched. -/
  ordered : ∀ e e' j j' t t' w w', e < e' → e' < d → C.Fills e j t w → C.Fills e' j' t' w' →
    j.opcode = .activate ∨ j'.opcode = .readHost ∨ t ≤ e' → t < t'
  /-- The pointer of an indirect transfer is read after all of them. -/
  pointer : i.has Instruction.switchBit = true → (C.asked d i).padAddr =
    Word.low C.chip.dataWidth (((C.padAfter (C.padLog d)).read i.padAddr).getD 0 0)
  /-- So is every row that goes to the host, and also after what instructions dispatched later have written before its
  cycle. -/
  rows : ∀ k t, C.Leaves d i k t → C.Unbroken (t + 1) → ∃ later,
    (∀ w ∈ later, ∃ e j u, d < e ∧ u < t ∧ C.Fills e j u w) ∧
    (C.machine t).transferred.hostWrite = some ⟨(C.asked d i).hostAddr + UInt64.ofNat k,
      (C.padAfter (C.padLog d ++ later)).read ((C.asked d i).padAddr + UInt64.ofNat k)⟩

variable {C} {d e t : Nat} {i j : Instruction} {w : RowStore.Write}

/-! ## The log of the scratchpad -/

theorem padLog_succ (t : Nat) : C.padLog (t + 1) = C.padLog t ++ C.padWrites t := by
  rw [padLog, List.range_succ, List.flatMap_append, List.flatMap_singleton]
  rfl

theorem padAfter_append (log later : List RowStore.Write) :
    C.padAfter (log ++ later) = later.foldl RowStore.apply (C.padAfter log) := List.foldl_append

/-- The log grows by what is taken over from cycle `d` on. -/
theorem exists_padLog (h : d ≤ t) : ∃ later, C.padLog t = C.padLog d ++ later ∧
    ∀ w ∈ later, ∃ u, d ≤ u ∧ u < t ∧ w ∈ C.padWrites u := by
  induction t, h using Nat.le_induction with
  | base => exact ⟨[], (List.append_nil _).symm, nofun⟩
  | succ t hdt ih =>
    obtain ⟨later, hlater, hmem⟩ := ih
    refine ⟨later ++ C.padWrites t, by rw [padLog_succ, hlater, List.append_assoc], fun w hw => ?_⟩
    rcases List.mem_append.1 hw with hw | hw
    · obtain ⟨u, hdu, hut, hu⟩ := hmem w hw
      exact ⟨u, hdu, by omega, hu⟩
    · exact ⟨t, hdt, Nat.lt_succ_self t, hw⟩

/-- Without writes from outside, the scratchpad is what its log makes of it. -/
theorem pad_machine (hpokes : ∀ t, C.pokes (t + 1) = []) (h : C.Unbroken t) :
    (C.machine t).memories.pad = C.padAfter (C.padLog t) := by
  induction t with
  | zero => rfl
  | succ t ih =>
    have hnext : (C.machine (t + 1)).memories.pad =
        ((C.machine t).memories.pad.commit (C.machine t).activated.write).commit
          (C.machine t).transferred.padWrite := by
      rw [machine, hpokes, Machine.pokeAll, List.foldl_nil, (Machine.of_tick_isOk (h t (Nat.lt_succ_self t))).1,
        Machine.pad_step]
    rw [hnext, ih (h.mono (Nat.le_succ t)), padLog_succ, padAfter_append, padWrites, List.foldl_append]
    cases (C.machine t).activated.write <;> cases (C.machine t).transferred.padWrite <;> rfl

/-! ## What instructions write -/

theorem Fills.issued (hf : C.Fills d i t w) : C.issued d = some i := by
  cases hf with
  | turned h => exact h.issued
  | landed h => exact h.issued
  | placed h => exact h.issued

theorem Fills.opcode (hf : C.Fills d i t w) : i.opcode = .activate ∨ i.opcode = .readHost := by
  cases hf with
  | turned h => exact Or.inl h.opcode
  | landed h => exact Or.inr h.opcode
  | placed h => exact Or.inr h.opcode

theorem Fills.lt (hf : C.Fills d i t w) : d < t := by
  cases hf with
  | turned h => have := h.cycle; omega
  | landed h => have := h.cycle; omega
  | placed h => have := h.cycle; omega

/-- What instructions write is what the scratchpad takes over. -/
theorem mem_padWrites_iff (h : C.Unbroken (t + 1)) (hfit : C.FitBefore .host t) :
    w ∈ C.padWrites t ↔ ∃ d i, C.Fills d i t w := by
  rw [padWrites, List.mem_append, Option.mem_toList, Option.mem_toList]
  constructor
  · rintro (hw | hw)
    · obtain ⟨d, i, k, hturns⟩ := exists_turns h hw
      obtain ⟨row, hrow, hwrite⟩ := hturns.written h
      obtain rfl := Option.some.inj (hw.symm.trans hwrite)
      exact ⟨d, i, .turned hturns hrow⟩
    · rcases exists_lands h hfit hw with ⟨d, i, k, hlands⟩ | ⟨d, i, hplaces⟩
      · obtain rfl := Option.some.inj (hw.symm.trans (hlands.written h hfit))
        exact ⟨d, i, .landed hlands⟩
      · obtain rfl := Option.some.inj (hw.symm.trans (hplaces.written h hfit))
        exact ⟨d, i, .placed hplaces⟩
  · rintro ⟨d, i, hf⟩
    cases hf with
    | turned hturns hrow =>
      obtain ⟨row, hrow', hwrite⟩ := hturns.written h
      obtain rfl := Option.some.inj (hrow.symm.trans hrow')
      exact Or.inl hwrite
    | landed hlands => exact Or.inr (hlands.written h hfit)
    | placed hplaces => exact Or.inr (hplaces.written h hfit)

theorem mem_padLog_iff (h : C.Unbroken t) (hfit : C.FitBefore .host t) :
    w ∈ C.padLog t ↔ ∃ u < t, ∃ d i, C.Fills d i u w := by
  rw [padLog, List.mem_flatMap]
  constructor
  · rintro ⟨u, hu, hw⟩
    have hut := List.mem_range.1 hu
    exact ⟨u, hut, (mem_padWrites_iff (h.mono hut) (hfit.mono (Nat.le_of_lt hut))).1 hw⟩
  · rintro ⟨u, hut, hf⟩
    exact ⟨u, List.mem_range.2 hut, (mem_padWrites_iff (h.mono hut) (hfit.mono (Nat.le_of_lt hut))).2 hf⟩

/-! ## What a dispatch has waited for -/

/-- Nothing is dispatched while an activation is busy, and no host instruction while the host link is. -/
theorem busy_of_issued (hd : C.issued d = some i) : (C.sequencer d).busy.activate = 0 ∧
    (i.opcode = .readHost ∨ i.opcode = .writeHost → (C.sequencer d).busy.host = 0) := by
  rw [(unbroken_of_issued hd).issued_eq, dispatched_eq] at hd
  have hready := (Sequencer.of_dispatched hd).2.2.1
  unfold Sequencer.ready at hready
  rw [Bool.and_eq_true, beq_iff_eq] at hready
  refine ⟨hready.1, ?_⟩
  rintro (hop | hop)
  · simpa [hop] using hready.2
  · simpa [hop] using hready.2

/-- The rows of an activation are turned before anything else is dispatched. -/
theorem Turns.lt_of_issued {k : Nat} (hr : C.Turns e j k t) (hd : C.issued d = some i) (hed : e < d) : t < d := by
  by_contra hle
  have h := unbroken_of_issued hd
  obtain ⟨he, hop, hk, hcycle, hstays⟩ := hr
  have hissue := issue_of_issued h he (by omega)
  simp only [Sequencer.command?, hop] at hissue
  rw [turned_eq h (by omega) j (C.sequencer e).pc] at hstays
  -- in cycle `d` the unit would have a row left, and its counter would not be at zero
  have hjob := actJob?_of_issue hissue hstays (k := d - (e + 1)) (show d - (e + 1) < j.length.toNat by omega)
  rw [show e + 1 + (d - (e + 1)) = d by omega] at hjob
  have hrows := (counted_free (C := C) d).activate.rows
  rw [show (C.free d).pipeline.sequencer.busy.activate = 0 from (busy_of_issued hd).1] at hrows
  have hnone : C.actJob? d = none := Activator.rowsLeft_eq_zero_iff.1 hrows.symm
  rw [hnone] at hjob
  cases hjob

/-- A host instruction is dispatched after the busy time of every host instruction before it whose span fits. -/
theorem host_le_of_issued {c : Command} {n : Nat} (hc : C.issue (e + 1) = some c) (hn : Sequencer.hostSet c = some n)
    (hfit : n < 2 ^ 64) (hd : C.issued d = some i) (hop : i.opcode = .readHost ∨ i.opcode = .writeHost) (hed : e < d) :
    e + 1 + n ≤ d := by
  have hset : (C.issue (e + 1)).bind Sequencer.hostSet = some n := by
    rw [hc]
    exact hn
  have hzero : (C.sequencer d).busy.host.toNat = 0 := by
    rw [(busy_of_issued hd).2 hop]
    rfl
  exact (countdown (Sequencer.counts_host C.chip)).le_of_count_eq_zero hset hfit hed hzero

theorem Lands.lt_of_issued {k : Nat} (hr : C.Lands e j k t) (hfit : j.SpanFits C.chip) (hd : C.issued d = some i)
    (hop : i.opcode = .readHost ∨ i.opcode = .writeHost) (hed : e < d) : t < d := by
  obtain ⟨he, hread, hplain, hk, hcycle⟩ := hr
  have hissue := issue_of_issued (unbroken_of_issued hd) he (by omega)
  have hcommand : Sequencer.command? C.chip (C.machine e).memories.pad (C.sequencer e).pc j =
      some (.readHost (C.asked e j)) := by
    simp only [Sequencer.command?, hread, hplain, Bool.false_eq_true, if_false]
    rfl
  have hle := host_le_of_issued (hissue.trans hcommand) rfl (Sequencer.fits_command? hcommand hfit) hd hop hed
  unfold hostSpan at hle
  omega

theorem Places.lt_of_issued (hr : C.Places e j t) (hd : C.issued d = some i)
    (hop : i.opcode = .readHost ∨ i.opcode = .writeHost) (hed : e < d) : t < d := by
  obtain ⟨he, hread, hconvert, hcycle⟩ := hr
  have hissue := issue_of_issued (unbroken_of_issued hd) he (by omega)
  simp only [Sequencer.command?, hread, hconvert, if_true] at hissue
  have hle := host_le_of_issued hissue rfl (by decide) hd hop hed
  rw [show hostSpan 1 = 2 from rfl] at hle
  omega

/-- Before a dispatch, all rows of the activations before it have been written; before that of a host instruction, those
from the host link too. -/
theorem Fills.lt_of_issued (hf : C.Fills e j t w) (hfit : C.FitBefore .host d) (hd : C.issued d = some i)
    (hop : j.opcode = .activate ∨ i.opcode = .readHost ∨ i.opcode = .writeHost) (hed : e < d) : t < d := by
  cases hf with
  | turned h => exact h.lt_of_issued hd hed
  | landed h =>
    have hhost := hop.resolve_left (by rw [h.opcode]; decide)
    exact h.lt_of_issued (hfit e hed j h.issued (by rw [h.opcode]; rfl)) hd hhost hed
  | placed h =>
    have hhost := hop.resolve_left (by rw [h.opcode]; decide)
    exact h.lt_of_issued hd hhost hed

/-- Nothing else is asked of the host link while a host write that fits is under way. -/
theorem Leaves.fitBefore {k : Nat} (hr : C.Leaves d i k t) (hfit : C.FitBefore .host (d + 1)) :
    C.FitBefore .host t := by
  intro e het j he hclass
  rcases Nat.lt_or_ge d e with hde | hed
  · obtain ⟨hd, hwrite, hk, hcycle⟩ := hr
    have hfits := hfit d (Nat.lt_succ_self d) i hd (by rw [hwrite]; rfl)
    have hissue := issue_of_issued (unbroken_of_issued he) hd (Nat.le_of_lt hde)
    have hcommand : Sequencer.command? C.chip (C.machine d).memories.pad (C.sequencer d).pc i =
        some (.writeHost (C.asked d i)) := by
      simp only [Sequencer.command?, hwrite]
      rfl
    have hop : j.opcode = .readHost ∨ j.opcode = .writeHost := by
      cases hj : j.opcode <;> rw [hj] at hclass <;> first | exact Or.inl rfl | exact Or.inr rfl | cases hclass
    have hle := host_le_of_issued (hissue.trans hcommand) rfl (Sequencer.fits_command? hcommand hfits) he hop hde
    unfold hostSpan at hle
    omega
  · exact hfit e (Nat.lt_succ_of_le hed) j he hclass

/-- What the scratchpad takes over after a host write was dispatched and before one of its rows leaves is written by
instructions that were dispatched after it. -/
theorem Leaves.fills_later {k u : Nat} (hr : C.Leaves d i k t) (hfit : C.FitBefore .host (d + 1))
    (h : C.Unbroken (t + 1)) (hdu : d ≤ u) (hut : u < t) (hw : w ∈ C.padWrites u) :
    ∃ e j, d < e ∧ C.Fills e j u w := by
  have hd := hr.issued
  have hwrite := hr.opcode
  obtain ⟨e, j, hf⟩ :=
    (mem_padWrites_iff (h.mono (by omega)) ((hr.fitBefore hfit).mono (Nat.le_of_lt hut))).1 hw
  refine ⟨e, j, ?_, hf⟩
  rcases Nat.lt_trichotomy e d with hed | rfl | hde
  · have hud := hf.lt_of_issued (hfit.mono (Nat.le_succ d)) hd (Or.inr (Or.inr hwrite)) hed
    omega
  · -- a host write fills no row of the scratchpad
    obtain rfl := Option.some.inj (hd.symm.trans hf.issued)
    have hwrites := hf.opcode
    rw [hwrite] at hwrites
    exact absurd hwrites (by decide)
  · exact hde

/-- **Fresh rows.** A host read or a host write finds everything in the scratchpad that the instructions before it write,
under every hazard policy and without a `SYNC`, if the span of every transfer up to it fits its counter: none of it is
still under way when it is dispatched. -/
theorem fresh_of_issued (hpokes : ∀ t, C.pokes (t + 1) = []) (hd : C.issued d = some i)
    (hop : i.opcode = .readHost ∨ i.opcode = .writeHost) (hfit : C.FitBefore .host (d + 1)) : C.Fresh d i := by
  have h := unbroken_of_issued hd
  have hbefore := h.mono (Nat.le_succ d)
  have hfitd := hfit.mono (Nat.le_succ d)
  have hpad := pad_machine hpokes hbefore
  have hmade : ∀ {e j t w}, e < d → C.Fills e j t w → t < d :=
    fun hed hf => hf.lt_of_issued hfitd hd (Or.inr hop) hed
  constructor
  · intro e j t w hed hf
    have htd := hmade hed hf
    exact ⟨htd, (mem_padWrites_iff (h.mono (by omega)) (hfitd.mono (by omega))).2 ⟨e, j, hf⟩⟩
  · exact hpad
  · intro w
    rw [mem_padLog_iff hbefore hfitd]
    constructor
    · rintro ⟨t, htd, e, j, hf⟩
      have hlt := hf.lt
      exact ⟨e, j, t, by omega, hf⟩
    · rintro ⟨e, j, t, hed, hf⟩
      exact ⟨t, hmade hed hf, e, j, hf⟩
  · intro e e' j j' t t' w w' hlt hed hf hf' hor
    have hdone : t ≤ e' := by
      rcases hor with hact | hread | hdone
      · exact Nat.le_of_lt (hf.lt_of_issued (hfitd.mono (Nat.le_of_lt hed)) hf'.issued (Or.inl hact) hlt)
      · exact Nat.le_of_lt (hf.lt_of_issued (hfitd.mono (Nat.le_of_lt hed)) hf'.issued (Or.inr (Or.inl hread)) hlt)
      · exact hdone
    exact Nat.lt_of_le_of_lt hdone hf'.lt
  · intro hindirect
    rw [asked, Sequencer.transfer, if_pos hindirect, ← hpad]
    rfl
  · intro k t hleaves hunbroken
    have hcycle := hleaves.cycle
    obtain ⟨later, hlater, hmem⟩ := exists_padLog (C := C) (show d ≤ t by omega)
    refine ⟨later, fun w hw => ?_, ?_⟩
    · obtain ⟨u, hdu, hut, hu⟩ := hmem w hw
      obtain ⟨e, j, hde, hf⟩ := hleaves.fills_later hfit hunbroken hdu hut hu
      exact ⟨e, j, u, hde, hut, hf⟩
    · rw [hleaves.written hunbroken (hleaves.fitBefore hfit), pad_machine hpokes (hunbroken.mono (Nat.le_succ t)),
        hlater]

/-- A host read, an activation and a transfer whose pointer the activation writes, without a `SYNC`. -/
def pointed : Course where
  chip := { size := 4, padRows := 6, accRows := 1, hostRows := 4, tiles := 1 }
  valid := Chip.flaw?_eq_none_iff.1 (by decide)
  program := ⟨[.readHost 0 3 2, .activate 0 0 1 .identity, .writeHostVia 2 0, .halt]⟩
  start :=
    { pad := .blank 6 4
      host := ⟨4, #[[7, 7, 7, 7], [8, 8, 8, 8], [0, 0, 0, 0], [0, 0, 0, 0]]⟩
      acc := ⟨#[[4, 0, 0, 0]]⟩
      weights := .blank 1 4 }
  fits := ⟨⟨by decide, by decide⟩, ⟨by decide, by decide⟩⟩
  pokes _ := []

/-- The second row of the host read is the last to land, one cycle before the transfer is dispatched. -/
theorem fresh_of_issued_pointed : pointed.issued 4 = some (.writeHostVia 2 0) ∧ pointed.FitBefore .host 5 ∧
    pointed.Fills 0 (.readHost 0 3 2) 3 ⟨4, [8, 8, 8, 8]⟩ ∧ ⟨4, [8, 8, 8, 8]⟩ ∈ pointed.padWrites 3 ∧
    pointed.Fills 1 (.activate 0 0 1 .identity) 2 ⟨0, [4, 0, 0, 0]⟩ ∧ ⟨0, [4, 0, 0, 0]⟩ ∈ pointed.padWrites 2 ∧
    (pointed.asked 4 (.writeHostVia 2 0)).padAddr = 4 := by
  have hwrite : pointed.issued 4 = some (.writeHostVia 2 0) := by decide +kernel
  have hfit : pointed.FitBefore .host 5 := by decide +kernel
  have hread : pointed.issued 0 = some (.readHost 0 3 2) := by decide +kernel
  have hact : pointed.issued 1 = some (.activate 0 0 1 .identity) := by decide +kernel
  have hlands : pointed.Lands 0 (.readHost 0 3 2) 1 3 := ⟨hread, rfl, by decide, by decide +kernel, rfl⟩
  have hturns : pointed.Turns 1 (.activate 0 0 1 .identity) 0 2 := ⟨hact, rfl, by decide, rfl, by decide +kernel⟩
  have hasked : pointed.asked 0 (.readHost 0 3 2) = ⟨0, 3, 2⟩ := by decide +kernel
  have hrow : (pointed.machine (0 + 1 + 1)).memories.host.read (0 + UInt64.ofNat 1) = [8, 8, 8, 8] := by decide +kernel
  have hland : pointed.Fills 0 (.readHost 0 3 2) 3 ⟨4, [8, 8, 8, 8]⟩ := by
    have h := Fills.landed hlands
    rw [hasked, hrow] at h
    exact h
  have hturn : pointed.Fills 1 (.activate 0 0 1 .identity) 2 ⟨0, [4, 0, 0, 0]⟩ := .turned hturns (by decide +kernel)
  have hfresh := fresh_of_issued (fun _ => rfl) hwrite (Or.inr rfl) hfit
  refine ⟨hwrite, hfit, hland, (hfresh.made _ _ _ _ (by decide) hland).2, hturn,
    (hfresh.made _ _ _ _ (by decide) hturn).2, ?_⟩
  rw [hfresh.pointer (by decide), ← hfresh.pad]
  decide +kernel

/-- The last row of a host read and the row of the activation behind it go to the same place. -/
def overtaken : Course where
  chip := { size := 4, padRows := 4, accRows := 1, hostRows := 8, tiles := 1 }
  valid := Chip.flaw?_eq_none_iff.1 (by decide)
  program := ⟨[.readHost 0 0 4, .activate 0 3 1 .identity, .writeHost 7 3 1, .halt]⟩
  start :=
    { pad := .blank 4 4
      host := ⟨4, #[[1, 1, 1, 1], [2, 2, 2, 2], [3, 3, 3, 3], [5, 5, 5, 5], [0, 0, 0, 0], [0, 0, 0, 0], [0, 0, 0, 0],
        [0, 0, 0, 0]]⟩
      acc := ⟨#[[0, 0, 0, 0]]⟩
      weights := .blank 1 4 }
  fits := ⟨⟨by decide, by decide⟩, ⟨by decide, by decide⟩⟩
  pokes _ := []

/-- The row of the activation is written in cycle 2, the one of the host read before it in cycle 5: that one is what the
host write finds. -/
theorem not_ordered : (overtaken.machine 6).memories.pad.read 3 = [5, 5, 5, 5] ∧
    ¬ ∀ (C : Course) (d : Nat) (i : Instruction), (∀ t, C.pokes (t + 1) = []) → C.issued d = some i →
      i.opcode = .readHost ∨ i.opcode = .writeHost → C.FitBefore .host (d + 1) →
      ∀ e e' j j' t t' w w', e < e' → e' < d → C.Fills e j t w → C.Fills e' j' t' w' → w.addr = w'.addr → t < t' := by
  refine ⟨by decide +kernel, fun h => ?_⟩
  have hwrite : overtaken.issued 6 = some (.writeHost 7 3 1) := by decide +kernel
  have hfit : overtaken.FitBefore .host 7 := by decide +kernel
  have hread : overtaken.issued 0 = some (.readHost 0 0 4) := by decide +kernel
  have hact : overtaken.issued 1 = some (.activate 0 3 1 .identity) := by decide +kernel
  have hlands : overtaken.Lands 0 (.readHost 0 0 4) 3 5 := ⟨hread, rfl, by decide, by decide +kernel, rfl⟩
  have hturns : overtaken.Turns 1 (.activate 0 3 1 .identity) 0 2 := ⟨hact, rfl, by decide, rfl, by decide +kernel⟩
  have hland := Fills.landed hlands
  have hturn : overtaken.Fills 1 (.activate 0 3 1 .identity) 2 ⟨3, [0, 0, 0, 0]⟩ := .turned hturns (by decide +kernel)
  have hasked : overtaken.asked 0 (.readHost 0 0 4) = ⟨0, 0, 4⟩ := by decide +kernel
  rw [hasked] at hland
  have hlt := h overtaken 6 _ (fun _ => rfl) hwrite (Or.inr rfl) hfit _ _ _ _ _ _ _ _ (by decide) (by decide) hland
    hturn rfl
  exact absurd hlt (by decide)

end Systolic.Course
