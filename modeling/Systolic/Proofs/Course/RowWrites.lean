import Systolic.Proofs.Course.AccWrites
import Systolic.Proofs.Course.Streams

/-!
# Every write into the scratchpad and the host memory

The scratchpad takes over a row of an activation, then a row from the host link; the host memory takes over a row of a
host write. As long as the spans of the transfers fit their counter, `row_account` says for every cycle which
instruction each of these rows belongs to, when it was dispatched, and what the row is; where two rows meet, the one
from the host link stays. A transfer that does not fit may be cut short by the next one (`not_row_account`).
-/

namespace Systolic

theorem Machine.stores_pokeAll {chip : Chip} {m : Machine} (h : m.memories.stores.Fits chip) (ps : List Poke) :
    (m.pokeAll ps).memories.stores.Fits chip := by
  induction ps generalizing m with
  | nil => exact h
  | cons p ps ih =>
    refine ih (m := m.poke p) ?_
    cases p with
    | host addr row => exact ⟨h.pad, h.host.write _ _⟩
    | pad addr row => exact ⟨h.pad.write _ _, h.host⟩
    | tile addr cells => exact ⟨h.pad, h.host⟩

namespace Course

variable (C : Course)

/-- The transfer that `i` asks for when tick `d` dispatches it. -/
def asked (d : Nat) (i : Instruction) : Transfer := Sequencer.transfer C.chip (C.machine d).memories.pad i

/-- What row `k` of activation `i` turns into in cycle `t`. -/
def turned (t : Nat) (i : Instruction) (k : Nat) : Outcome :=
  .decode C.chip i.activation (k == 0) ((C.machine t).memories.acc.readRow (i.memAddr + UInt64.ofNat k))

/-- Row `k` of activation `i`, dispatched by tick `d`, is turned in cycle `t`; the first row was no branch or jump. -/
structure Turns (d : Nat) (i : Instruction) (k t : Nat) : Prop where
  issued : C.issued d = some i
  opcode : i.opcode = .activate
  row : k < i.length.toNat
  cycle : t = d + 1 + k
  stays : (C.turned (d + 1) i 0).redirects = false

/-- Row `k` of host read `i`, dispatched by tick `d`, lands in the scratchpad in cycle `t`. -/
structure Lands (d : Nat) (i : Instruction) (k t : Nat) : Prop where
  issued : C.issued d = some i
  opcode : i.opcode = .readHost
  plain : i.has Instruction.convertBit = false
  row : k < (C.asked d i).length.toNat
  cycle : t = d + 2 + k

/-- The jump row of `i`, dispatched by tick `d`, lands in the scratchpad in cycle `t`. -/
structure Places (d : Nat) (i : Instruction) (t : Nat) : Prop where
  issued : C.issued d = some i
  opcode : i.opcode = .readHost
  convert : i.has Instruction.convertBit = true
  cycle : t = d + 2

/-- Row `k` of host write `i`, dispatched by tick `d`, goes to the host memory in cycle `t`. -/
structure Leaves (d : Nat) (i : Instruction) (k t : Nat) : Prop where
  issued : C.issued d = some i
  opcode : i.opcode = .writeHost
  row : k < (C.asked d i).length.toNat
  cycle : t = d + 1 + k

/-- Every write into the scratchpad and the host memory in cycle `t`. -/
structure RowAccount (t : Nat) : Prop where
  /-- The scratchpad takes over one row of the activation unit at most, then one of the host link at most. -/
  pad : (C.machine t).ticked.memories.pad =
    ((C.machine t).memories.pad.commit (C.machine t).activated.write).commit (C.machine t).transferred.padWrite
  /-- The host memory takes over one row at most. -/
  host : (C.machine t).ticked.memories.host = (C.machine t).memories.host.commit (C.machine t).transferred.hostWrite
  /-- A row of an activation is written as it is decoded; only a first row can be a branch or a jump. -/
  turns : ∀ d i k, C.Turns d i k t → ∃ row, (C.turned t i k).writeback? = some row ∧
    (C.machine t).activated.write = some ⟨i.padAddr + UInt64.ofNat k, row⟩
  of_activated : ∀ w, (C.machine t).activated.write = some w → ∃ d i k, C.Turns d i k t
  /-- A row from the host is the one that stood there at the start of the cycle before. -/
  lands : ∀ d i k, C.Lands d i k t → (C.machine t).transferred.padWrite =
    some ⟨(C.asked d i).padAddr + UInt64.ofNat k,
      (C.machine (d + 1 + k)).memories.host.read ((C.asked d i).hostAddr + UInt64.ofNat k)⟩
  places : ∀ d i, C.Places d i t →
    (C.machine t).transferred.padWrite = some ⟨i.padAddr, HostLink.jumpRow C.chip i.memAddr⟩
  of_padWrite : ∀ w, (C.machine t).transferred.padWrite = some w →
    (∃ d i k, C.Lands d i k t) ∨ ∃ d i, C.Places d i t
  /-- A row for the host is the one that stands in the scratchpad at the start of the cycle. -/
  leaves : ∀ d i k, C.Leaves d i k t → (C.machine t).transferred.hostWrite =
    some ⟨(C.asked d i).hostAddr + UInt64.ofNat k,
      (C.machine t).memories.pad.read ((C.asked d i).padAddr + UInt64.ofNat k)⟩
  of_hostWrite : ∀ w, (C.machine t).transferred.hostWrite = some w → ∃ d i k, C.Leaves d i k t
  /-- Whatever the activation unit writes, a row from the host link remains. -/
  remains : ∀ w, (C.machine t).transferred.padWrite = some w →
    (C.machine t).ticked.memories.pad.read w.addr = w.row.fit C.chip.size
  pad_frame : ∀ b, (C.machine t).ticked.memories.pad.rows[b]? ≠ (C.machine t).memories.pad.rows[b]? →
    ∃ w, ((C.machine t).activated.write = some w ∨ (C.machine t).transferred.padWrite = some w) ∧
      b = w.addr.toNat % C.chip.padRows
  host_frame : ∀ b, (C.machine t).ticked.memories.host.rows[b]? ≠ (C.machine t).memories.host.rows[b]? →
    ∃ w, (C.machine t).transferred.hostWrite = some w ∧ b = w.addr.toNat % C.chip.hostRows

variable {C}

theorem stores_free (h : C.start.stores.Fits C.chip) (t : Nat) : (C.memories t).stores.Fits C.chip := by
  induction t with
  | zero => exact Machine.stores_pokeAll (m := C.first) h _
  | succ t ih =>
    refine Machine.stores_pokeAll (m := (C.free t).step.1) ⟨?_, ?_⟩ _
    · exact (ih.pad.commit _).commit _
    · exact ih.host.commit _

section Unbroken

variable {t : Nat} (h : C.Unbroken (t + 1))
include h

/-! ## The rows of an instruction -/

theorem issue_of_issued {d : Nat} {i : Instruction} (hd : C.issued d = some i) (hdt : d ≤ t) : C.issue (d + 1) =
    Sequencer.command? C.chip (C.machine d).memories.pad (C.sequencer d).pc i := by
  rw [(h.mono (by omega)).issued_eq] at hd
  rw [issue_of_dispatched hd, (h.mono (by omega)).machine_eq]
  rfl

/-- A command was issued for an instruction dispatched in the cycle before. -/
theorem exists_issued {u : Nat} {c : Command} (hc : C.issue u = some c) (hut : u ≤ t) : ∃ d i, u = d + 1 ∧
    C.issued d = some i ∧ Sequencer.command? C.chip (C.machine d).memories.pad (C.sequencer d).pc i = some c := by
  obtain ⟨d, i, rfl, hd, hi⟩ := exists_dispatched hc
  rw [← (h.mono (by omega)).issued_eq] at hd
  refine ⟨d, i, rfl, hd, ?_⟩
  rw [(h.mono (by omega)).machine_eq]
  exact hi

theorem hostFit (hfit : C.FitBefore .host t) : C.HostFit t := by
  intro u hut c hc hclass
  obtain ⟨d, i, rfl, hd, hcommand⟩ := exists_issued h hc hut
  have hfor := Sequencer.unitClass?_command? C.chip (C.machine d).memories.pad (C.sequencer d).pc i
  rw [hcommand, Option.map_some, hclass] at hfor
  exact Sequencer.fits_command? hcommand (hfit d (by omega) i hd hfor.symm)

theorem turned_eq {u : Nat} (hut : u ≤ t) (i : Instruction) (pc : UInt64) (k : Nat) : C.turned u i k =
    Sequential.outcome C.chip (C.memories u).acc ⟨i.memAddr, i.padAddr, i.length, i.activation, pc⟩ k := by
  rw [turned, (h.mono (by omega)).machine_eq]
  rfl

theorem activated_eq : (C.machine t).activated = C.act t := by
  rw [(h.mono (Nat.le_succ t)).machine_eq, Machine.activated, chip_free]
  rfl

theorem transferred_eq : (C.machine t).transferred = C.transferred t := by
  rw [(h.mono (Nat.le_succ t)).machine_eq, Machine.transferred, chip_free]
  rfl

theorem Turns.written {d k : Nat} {i : Instruction} (hr : C.Turns d i k t) : ∃ row,
    (C.turned t i k).writeback? = some row ∧
      (C.machine t).activated.write = some ⟨i.padAddr + UInt64.ofNat k, row⟩ := by
  obtain ⟨hd, hop, hk, hcycle, hstays⟩ := hr
  have hissue := issue_of_issued h hd (by omega)
  simp only [Sequencer.command?, hop] at hissue
  have hordinary : (C.turned t i k).redirects = false := by
    cases k with
    | zero =>
      rw [hcycle]
      exact hstays
    | succ k => exact Outcome.redirect?_eq_none_iff.1 (Outcome.redirect?_later _ _ _ 0)
  obtain ⟨row, hrow⟩ := Outcome.exists_writeback? hordinary
  refine ⟨row, hrow, ?_⟩
  rw [turned_eq h (by omega) i (C.sequencer d).pc] at hrow hstays
  rw [activated_eq h, act_write_iff]
  refine ⟨d + 1, _, k, hissue, hcycle, hk, hstays, ?_⟩
  rw [Sequential.rowWrite, hrow]
  rfl

theorem exists_turns {w : RowStore.Write} (hw : (C.machine t).activated.write = some w) :
    ∃ d i k, C.Turns d i k t := by
  rw [activated_eq h, act_write_iff] at hw
  obtain ⟨u, a, k, hu, hcycle, hk, hstays, -⟩ := hw
  obtain ⟨d, i, rfl, hd, hcommand⟩ := exists_issued h hu (by omega)
  obtain ⟨hop, rfl⟩ := Sequencer.of_command? hcommand
  refine ⟨d, i, k, hd, hop, hk, hcycle, ?_⟩
  rw [turned_eq h (by omega) i (C.sequencer d).pc]
  exact hstays

section Fit

variable (hfit : C.FitBefore .host t)
include hfit

theorem Lands.written {d k : Nat} {i : Instruction} (hr : C.Lands d i k t) : (C.machine t).transferred.padWrite =
    some ⟨(C.asked d i).padAddr + UInt64.ofNat k,
      (C.machine (d + 1 + k)).memories.host.read ((C.asked d i).hostAddr + UInt64.ofNat k)⟩ := by
  obtain ⟨hd, hop, hplain, hk, hcycle⟩ := hr
  have hissue := issue_of_issued h hd (by omega)
  simp only [Sequencer.command?, hop, hplain, Bool.false_eq_true, if_false] at hissue
  rw [transferred_eq h, padWrite_iff (hostFit h hfit), (h.mono (by omega)).machine_eq]
  exact Or.inl ⟨d + 1, _, k, hissue, by omega, hk, rfl⟩

theorem Places.written {d : Nat} {i : Instruction} (hr : C.Places d i t) :
    (C.machine t).transferred.padWrite = some ⟨i.padAddr, HostLink.jumpRow C.chip i.memAddr⟩ := by
  obtain ⟨hd, hop, hconvert, hcycle⟩ := hr
  have hissue := issue_of_issued h hd (by omega)
  simp only [Sequencer.command?, hop, hconvert, if_true] at hissue
  rw [transferred_eq h, padWrite_iff (hostFit h hfit)]
  exact Or.inr ⟨d + 1, _, _, hissue, by omega, rfl⟩

theorem exists_lands {w : RowStore.Write} (hw : (C.machine t).transferred.padWrite = some w) :
    (∃ d i k, C.Lands d i k t) ∨ ∃ d i, C.Places d i t := by
  rw [transferred_eq h, padWrite_iff (hostFit h hfit)] at hw
  rcases hw with ⟨u, T, k, hu, hcycle, hk, -⟩ | ⟨u, target, addr, hu, hcycle, -⟩
  · obtain ⟨d, i, rfl, hd, hcommand⟩ := exists_issued h hu (by omega)
    obtain ⟨hop, hplain, rfl⟩ := Sequencer.of_command? hcommand
    exact Or.inl ⟨d, i, k, hd, hop, hplain, hk, by omega⟩
  · obtain ⟨d, i, rfl, hd, hcommand⟩ := exists_issued h hu (by omega)
    obtain ⟨hop, hconvert, -⟩ := Sequencer.of_command? hcommand
    exact Or.inr ⟨d, i, hd, hop, hconvert, by omega⟩

theorem Leaves.written {d k : Nat} {i : Instruction} (hr : C.Leaves d i k t) : (C.machine t).transferred.hostWrite =
    some ⟨(C.asked d i).hostAddr + UInt64.ofNat k,
      (C.machine t).memories.pad.read ((C.asked d i).padAddr + UInt64.ofNat k)⟩ := by
  obtain ⟨hd, hop, hk, hcycle⟩ := hr
  have hissue := issue_of_issued h hd (by omega)
  simp only [Sequencer.command?, hop] at hissue
  rw [transferred_eq h, hostWrite_iff (hostFit h hfit), (h.mono (Nat.le_succ t)).machine_eq]
  exact ⟨d + 1, _, k, hissue, hcycle, hk, rfl⟩

theorem exists_leaves {w : RowStore.Write} (hw : (C.machine t).transferred.hostWrite = some w) :
    ∃ d i k, C.Leaves d i k t := by
  rw [transferred_eq h, hostWrite_iff (hostFit h hfit)] at hw
  obtain ⟨u, T, k, hu, hcycle, hk, -⟩ := hw
  obtain ⟨d, i, rfl, hd, hcommand⟩ := exists_issued h hu (by omega)
  obtain ⟨hop, rfl⟩ := Sequencer.of_command? hcommand
  exact ⟨d, i, k, hd, hop, hk, hcycle⟩

end Fit

end Unbroken

/-! ## The account -/

/-- **The account of the scratchpad and the host memory**, for every cycle of a course from power-on, under every hazard
policy and until a tick fails, if the span of every transfer dispatched until then fits its counter. -/
theorem row_account (hfits : C.start.stores.Fits C.chip) {t : Nat} (h : C.Unbroken (t + 1))
    (hfit : C.FitBefore .host t) : C.RowAccount t := by
  have hticked := (Machine.of_tick_isOk (h t (Nat.lt_succ_self t))).1
  have hnow : (C.machine t).memories.stores.Fits C.chip := by
    rw [(h.mono (Nat.le_succ t)).machine_eq]
    exact stores_free hfits t
  have hpad : (C.machine t).memories.pad.Fits C.chip.padRows C.chip.size := hnow.pad
  have hhost : (C.machine t).memories.host.Fits C.chip.hostRows C.chip.size := hnow.host
  have hpadNext : (C.machine t).ticked.memories.pad = ((C.machine t).memories.pad.commit
      (C.machine t).activated.write).commit (C.machine t).transferred.padWrite := by rw [hticked, Machine.pad_step]
  have hhostNext : (C.machine t).ticked.memories.host =
      (C.machine t).memories.host.commit (C.machine t).transferred.hostWrite := by rw [hticked, Machine.host_step]
  refine
    { pad := hpadNext
      host := hhostNext
      turns := fun d i k hr => hr.written h
      of_activated := fun w hw => exists_turns h hw
      lands := fun d i k hr => hr.written h hfit
      places := fun d i hr => hr.written h hfit
      of_padWrite := fun w hw => exists_lands h hfit hw
      leaves := fun d i k hr => hr.written h hfit
      of_hostWrite := fun w hw => exists_leaves h hfit hw
      remains := fun w hw => ?_
      pad_frame := fun b hne => ?_
      host_frame := fun b hne => ?_ }
  · have hafter := hpad.commit (C.machine t).activated.write
    have hdepth : 0 < ((C.machine t).memories.pad.commit (C.machine t).activated.write).depth := by
      rw [hafter.depth_eq]
      exact C.valid.padRows
    rw [hpadNext, hw, RowStore.commit, RowStore.apply, RowStore.read_write hdepth, if_pos rfl, hafter.width_eq]
  · rw [hpadNext] at hne
    by_cases hact : ((C.machine t).memories.pad.commit (C.machine t).activated.write).rows[b]? =
      (C.machine t).memories.pad.rows[b]?
    · rw [← hact] at hne
      obtain ⟨w, hw, hb⟩ := RowStore.exists_commit_of_ne hne
      refine ⟨w, Or.inr hw, ?_⟩
      rw [hb, RowStore.slot, (hpad.commit _).depth_eq]
    · obtain ⟨w, hw, hb⟩ := RowStore.exists_commit_of_ne hact
      refine ⟨w, Or.inl hw, ?_⟩
      rw [hb, RowStore.slot, hpad.depth_eq]
  · rw [hhostNext] at hne
    obtain ⟨w, hw, hb⟩ := RowStore.exists_commit_of_ne hne
    refine ⟨w, hw, ?_⟩
    rw [hb, RowStore.slot, hhost.depth_eq]

/-- A row from the host lands on the row of an activation. -/
def collision : Course where
  chip := { size := 4, padRows := 6, accRows := 2, hostRows := 1, tiles := 1 }
  valid := Chip.flaw?_eq_none_iff.1 (by decide)
  program := ⟨[.readHost 0 5 1, .activate 1 5 1 .identity, .writeHost 0 5 1, .halt]⟩
  start :=
    { pad := .blank 6 4
      host := ⟨4, #[[7, 7, 7, 7]]⟩
      acc := ⟨#[[0, 0, 0, 0], [10, 20, 30, 40]]⟩
      weights := .blank 1 4 }
  fits := ⟨⟨by decide, by decide⟩, ⟨by decide, by decide⟩⟩
  pokes _ := []

theorem row_account_collision : collision.start.stores.Fits collision.chip ∧ collision.Unbroken 3 ∧
    collision.FitBefore .host 2 ∧
    collision.Turns 1 (.activate 1 5 1 .identity) 0 2 ∧ collision.Lands 0 (.readHost 0 5 1) 0 2 ∧
    (collision.machine 2).activated.write = some ⟨5, [10, 20, 30, 40]⟩ ∧
    (collision.machine 2).transferred.padWrite = some ⟨5, [7, 7, 7, 7]⟩ ∧
    (collision.machine 2).ticked.memories.pad.read 5 = [7, 7, 7, 7] := by
  have hfits : collision.start.stores.Fits collision.chip := ⟨⟨rfl, rfl, by decide⟩, ⟨rfl, rfl, by decide⟩⟩
  have h : collision.Unbroken 3 := by
    unfold Unbroken
    decide +kernel
  have hfit : collision.FitBefore .host 2 := by decide +kernel
  have hread : collision.issued 0 = some (.readHost 0 5 1) := by decide +kernel
  have hact : collision.issued 1 = some (.activate 1 5 1 .identity) := by decide +kernel
  have hturns : collision.Turns 1 (.activate 1 5 1 .identity) 0 2 := ⟨hact, rfl, by decide, rfl, by decide +kernel⟩
  have hlands : collision.Lands 0 (.readHost 0 5 1) 0 2 := ⟨hread, rfl, by decide, by decide +kernel, rfl⟩
  have hturned : (collision.turned 2 (.activate 1 5 1 .identity) 0).writeback? = some [10, 20, 30, 40] := by
    decide +kernel
  have hasked : collision.asked 0 (.readHost 0 5 1) = ⟨0, 5, 1⟩ := by decide +kernel
  have hrow : (collision.machine (0 + 1 + 0)).memories.host.read (0 + UInt64.ofNat 0) = [7, 7, 7, 7] := by decide +kernel
  have haccount := row_account hfits h hfit
  obtain ⟨row, hrow', hwrite⟩ := haccount.turns _ _ _ hturns
  obtain rfl := Option.some.inj (hturned.symm.trans hrow')
  have hland := haccount.lands _ _ _ hlands
  rw [hasked, hrow] at hland
  exact ⟨hfits, h, hfit, hturns, hlands, hwrite, hland, haccount.remains _ hland⟩

/-- The next host read takes the place of one whose span does not fit. -/
def cutShort : Course where
  chip := { size := 4, padRows := 4, accRows := 1, hostRows := 2, tiles := 1, layout := { length := 8 } }
  valid := Chip.flaw?_eq_none_iff.1 (by decide)
  program := ⟨[.readHost 0 0 18446744073709551615, .readHost 0 2 1, .halt]⟩
  start :=
    { pad := .blank 4 4
      host := ⟨4, #[[5, 5, 5, 5], [6, 6, 6, 6]]⟩
      acc := ⟨#[[0, 0, 0, 0]]⟩
      weights := .blank 1 4 }
  fits := ⟨⟨by decide, by decide⟩, ⟨by decide, by decide⟩⟩
  pokes _ := []

/-- Its second row never lands. -/
theorem not_row_account : ¬ ∀ (C : Course), C.start.stores.Fits C.chip → ∀ t, C.Unbroken (t + 1) → C.RowAccount t := by
  intro h
  have hfits : cutShort.start.stores.Fits cutShort.chip := ⟨⟨rfl, rfl, by decide⟩, ⟨rfl, rfl, by decide⟩⟩
  have hunbroken : cutShort.Unbroken 4 := by
    unfold Unbroken
    decide +kernel
  have hd : cutShort.issued 0 = some (.readHost 0 0 18446744073709551615) := by decide +kernel
  have hlands : cutShort.Lands 0 (.readHost 0 0 18446744073709551615) 1 3 :=
    ⟨hd, rfl, by decide, by decide +kernel, rfl⟩
  have hland := (h cutShort hfits 3 hunbroken).lands _ _ _ hlands
  exact absurd (congrArg (Option.map (·.addr)) hland) (by decide +kernel)

end Course

end Systolic
