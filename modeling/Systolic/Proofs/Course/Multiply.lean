import Systolic.Proofs.Course.Commit

/-!
# Multiplications use their own tile

In a course without hazards every multiplication computes with the tile of its own switch: however weight reads and
multiplications overlap, the rows of one that is dispatched after `j` switches meet the tile that weight read `j` named
(`committed_product`). Nothing but the three hazard checks is needed for this, so no wrong product passes unnoticed.
-/

namespace Systolic.Course

variable (C : Course)

/-- The instruction that tick `t` dispatches. -/
def issued (t : Nat) : Option Instruction := (C.machine t).dispatched?

/-- Switches dispatched before tick `t`. -/
def switchesBefore (t : Nat) : Nat := Nat.count (fun u => (C.issued u).any (·.switches) = true) t

/-- Weight reads dispatched before tick `t`. -/
def readsBefore (t : Nat) : Nat := Nat.count (fun u => ((C.issued u).bind (·.tile?)).isSome = true) t

/-- The tile of the weight store at address `a` when the course starts. -/
def storedTile (a : UInt64) : Tile := .ofRow C.chip.size ((C.machine 0).memories.weights.read a)

/-- The tile in use after so many switches: zeros before the first one, then the tiles of the weight reads in order. -/
inductive InUse : Nat → Tile → Prop
  | zeros : InUse 0 (.ofRow C.chip.size [])
  | read {r : Nat} {a : UInt64} (h : (C.issued r).bind (·.tile?) = some a) : InUse (C.readsBefore r + 1) (C.storedTile a)

/-- Element `c` of the product of row `k` of multiplication `i`, dispatched in cycle `d`, with `T`: the row is the one
that stands in the scratchpad at the start of cycle `d + 1 + k`. -/
def rowProduct (d : Nat) (i : Instruction) (k : Nat) (T : Tile) (c : Nat) : Word :=
  Tile.product C.chip.accWidth ((C.machine (d + 1 + k)).memories.pad.read (i.padAddr + UInt64.ofNat k)) T c

/-- No tile is written from outside once the course has started. -/
def TilesStay : Prop := ∀ t, ∀ p ∈ C.pokes (t + 1), p.isTile = false

/-- The span of every instruction for the units of class `k` that a tick before tick `t` dispatches fits its counter. -/
def FitBefore (k : UnitClass) (t : Nat) : Prop :=
  ∀ d < t, ∀ i, C.issued d = some i → i.opcode.unitClass? = some k → i.SpanFits C.chip

instance (k : UnitClass) (t : Nat) : Decidable (C.FitBefore k t) :=
  inferInstanceAs (Decidable (∀ d < t, ∀ i ∈ C.issued d, i.opcode.unitClass? = some k → i.SpanFits C.chip))

variable {C}

/-- So many switches determine the tile in use. -/
theorem InUse.unique {n : Nat} {T U : Tile} (hT : C.InUse n T) (hU : C.InUse n U) : T = U := by
  cases hT with
  | zeros => cases hU; rfl
  | @read r a hr =>
    generalize hn : C.readsBefore r + 1 = n at hU
    cases hU with
    | zeros => cases hn
    | @read s b hs =>
      obtain rfl : r = s := Nat.count_injective (by rw [hr]; rfl) (by rw [hs]; rfl) (Nat.succ.inj hn)
      rw [hr] at hs
      cases hs
      rfl

theorem FitBefore.mono {k : UnitClass} {s t : Nat} (h : C.FitBefore k t) (hst : s ≤ t) : C.FitBefore k s :=
  fun d hd => h d (Nat.lt_of_lt_of_le hd hst)

/-! ## Ticks and free cycles -/

theorem Unbroken.issued_eq {t : Nat} (h : C.Unbroken (t + 1)) : C.issued t = C.dispatched t := by
  rw [issued, (Machine.of_tick_isOk (h t (Nat.lt_succ_self t))).2, (h.mono (Nat.le_succ t)).machine_eq]
  rfl

theorem issued_eq {t : Nat} (h : C.QuietBefore (t + 1)) : C.issued t = C.dispatched t := h.unbroken.issued_eq

theorem count_issued_eq {t : Nat} (h : C.QuietBefore t) (p : Option Instruction → Prop) [DecidablePred p] :
    Nat.count (fun u => p (C.issued u)) t = Nat.count (fun u => p (C.dispatched u)) t := by
  have heq : ∀ u < t, C.issued u = C.dispatched u := fun u hu => issued_eq (h.mono hu)
  refine Nat.le_antisymm (Nat.count_mono_left fun u hu hp => ?_) (Nat.count_mono_left fun u hu hp => ?_)
  · exact heq u hu ▸ hp
  · rw [heq u hu]; exact hp

theorem switchesBefore_eq {t : Nat} (h : C.QuietBefore t) : C.switchesBefore t = C.switchCount t :=
  count_issued_eq h fun i? => i?.any (·.switches) = true

theorem readsBefore_eq {t : Nat} (h : C.QuietBefore t) : C.readsBefore t = C.readCount t :=
  count_issued_eq h fun i? => (i?.bind (·.tile?)).isSome = true

/-! ## The tile of a multiplication -/

/-- While a multiplication is busy, no other switch is dispatched. -/
theorem switchCount_busy {d k : Nat} {m : Multiplication} (h : C.issue (d + 1) = some (.multiply m))
    (hfit : (Command.multiply m).SpanFits C.chip) (hk : k ≤ C.chip.matrixSpan m.length) :
    C.switchCount (d + 1 + k) = C.switchCount (d + 1) := by
  induction k with
  | zero => rfl
  | succ k ih =>
    have hno : (C.dispatched (d + 1 + k)).any (·.switches) = false := by
      have hnone := multiplication?_eq_none h hfit (Nat.succ_pos k) hk
      rw [← switches_row?_succ, switches_row?, Nat.add_assoc, hnone]
      rfl
    rw [← ih (by omega), ← Nat.add_assoc, switchCount, Nat.count_succ, if_neg (by simp [hno])]
    rfl

/-- The tile that has been brought in after so many switches is the one of its weight read. -/
theorem inUse_tile (hw : C.ReadsFit) {t n : Nat} (hq : C.QuietBefore t) (hn : n ≤ C.array.entered t) :
    C.InUse n (Tile.inUse C.chip.size (C.supply.tile (C.machine 0).memories.weights) n) := by
  cases n with
  | zero => exact InUse.zeros
  | succ n =>
    have hlt : n < C.supply.requested t := by
      have htaken := Mesh.Run.entered_le_taken size_pos holds_array hq.safe
      have hreq := (Supply.streaming (regular_supply hw) hq.kept).requested
      have hgone := gone_eq (C := C) t
      unfold Supply.complete Supply.atSecond Supply.atThird Supply.atFront at hreq
      omega
    obtain ⟨u, hu, hreq, hcount⟩ := Supply.exists_request hlt
    cases u with
    | zero => rw [request_zero] at hreq; cases hreq
    | succ r =>
      rw [request_succ, ← issued_eq (hq.mono (by omega))] at hreq
      rw [requested_succ, ← readsBefore_eq (hq.mono (by omega))] at hcount
      have h := InUse.read hreq
      rw [hcount] at h
      exact h

/-- **Own tiles.** Row `k` of a multiplication that is dispatched in cycle `d` reaches column `c` of the accumulators in
cycle `d + 2 + k + N + c`, as the product with the tile in use after the switches dispatched until `d`, if its span and
that of a weight read fit their counters. -/
theorem committed_product (hw : C.chip.weightSpan < 2 ^ 64) (hstay : C.TilesStay) {d k c : Nat} {i : Instruction}
    (hd : C.issued d = some i) (hop : i.opcode = .multiply) (hfit : i.SpanFits C.chip) (hk : k < i.length.toNat)
    (hc : c < C.chip.size) (hq : C.QuietBefore (d + 2 + k + C.chip.size + c + 1)) :
    ∃ T, C.InUse (C.switchesBefore (d + 1)) T ∧
      (C.machine (d + 2 + k + C.chip.size + c)).ticked.memories.acc.read c (i.memAddr + UInt64.ofNat k) =
        if i.has Instruction.overwriteBit then C.rowProduct d i k T c
        else Word.wrap C.chip.accWidth ((C.machine (d + 2 + k + C.chip.size + c)).memories.acc.read c
          (i.memAddr + UInt64.ofNat k) + C.rowProduct d i k T c) := by
  have hfix : C.supply.Fixed (C.machine 0).memories.weights := weights_free hstay
  rw [issued_eq (hq.mono (by omega))] at hd
  have hreads : C.ReadsFit := fun _ _ _ => hw
  have hissue := (issue_of_dispatched hd).trans (command?_multiply hop)
  have hspan := hfit.matrix hop
  have hrow := row?_of_issue (i := k) hissue hspan hk
  have ht : d + 1 + k + C.chip.size + 1 + c = d + 2 + k + C.chip.size + c := by omega
  -- the switches pushed up to this row are those dispatched until `d`
  have hswitches : C.switchCount (d + 1 + k) = C.switchesBefore (d + 1) := by
    rw [switchCount_busy hissue hspan (by simp only [Chip.matrixSpan]; omega), switchesBefore_eq (hq.mono (by omega))]
  have hsum := sums_array hreads hfix hrow hc (hq.mono (by omega))
  rw [switched_rows, hswitches, ht] at hsum
  have harrive : C.arriving c (d + 2 + k + C.chip.size + c) = (C.row? (d + 1 + k)).map (·.control) := by
    rw [arriving_eq hc, ← ht, Nat.add_assoc (d + 1 + k), Nat.add_assoc (d + 1 + k), delayed_add]
  have hcommit := elem_acc_succ hc hsum ((C.memories (d + 2 + k + C.chip.size + c)).acc.slot (i.memAddr + UInt64.ofNat k))
  rw [harrive, hrow] at hcommit
  have hread : C.machine (d + 1 + k) = C.free (d + 1 + k) := machine_eq_free (hq.mono (by omega))
  have hnow : C.machine (d + 2 + k + C.chip.size + c) = C.free (d + 2 + k + C.chip.size + c) :=
    machine_eq_free (hq.mono (Nat.le_succ _))
  have hafter : (C.machine (d + 2 + k + C.chip.size + c)).ticked.memories.acc =
      (C.memories (d + 2 + k + C.chip.size + c + 1)).acc := by
    rw [Machine.ticked_of_quiet (hq _ (Nat.lt_succ_self _)), hnow]
    exact (Machine.acc_pokeAll _ _).symm
  have hslot : (C.memories (d + 2 + k + C.chip.size + c + 1)).acc.slot (i.memAddr + UInt64.ofNat k) =
      (C.memories (d + 2 + k + C.chip.size + c)).acc.slot (i.memAddr + UInt64.ofNat k) := by
    rw [AccStore.slot, AccStore.slot, depth_acc, depth_acc]
  refine ⟨_, inUse_tile hreads (t := d + 1 + k + 2) (hq.mono (by omega)) (by rw [entered_eq, hswitches]), ?_⟩
  rw [hafter, AccStore.read_eq_elem, hslot, hcommit, rowProduct, hread, hnow]
  simp only [Option.map_some, if_true]
  rfl

/-- The tile at address 1 is switched to while the one at address 0 is on its way. -/
def prefetch : Course where
  chip := { size := 4, padRows := 2, accRows := 2, hostRows := 1, tiles := 2, latency := 0 }
  valid := Chip.flaw?_eq_none_iff.1 (by decide)
  program := ⟨[.readWeights 1, .sync, .readWeights 0, (Instruction.multiply 0 0 2).withSwitch, .halt]⟩
  start :=
    { pad := ⟨4, #[[1, 2, 3, 4], [5, 6, 7, 8]]⟩
      host := .blank 1 4
      acc := ⟨#[[0, 0, 0, 0], [10, 20, 30, 40]]⟩
      weights := ⟨#[List.replicate 16 1, [1, 2, 3, 4, 5, 6, 7, 8, 9, 10, 11, 12, 13, 14, 15, 16]]⟩ }
  fits := ⟨⟨by decide, by decide⟩, ⟨by decide, by decide⟩⟩
  pokes _ := []

theorem committed_product_prefetch :
    prefetch.chip.weightSpan < 2 ^ 64 ∧ prefetch.TilesStay ∧
      prefetch.issued 12 = some (Instruction.multiply 0 0 2).withSwitch ∧
      (Instruction.multiply 0 0 2).withSwitch.SpanFits prefetch.chip ∧ prefetch.QuietBefore 22 ∧
      (prefetch.machine 21).ticked.memories.acc.read 2 1 = (284 : Word) := by
  have hw : prefetch.chip.weightSpan < 2 ^ 64 := by decide
  have hfit : (Instruction.multiply 0 0 2).withSwitch.SpanFits prefetch.chip := by decide
  have hstay : prefetch.TilesStay := fun _ _ h => by cases h
  have hd : prefetch.issued 12 = some (Instruction.multiply 0 0 2).withSwitch := by decide +kernel
  have hq : prefetch.QuietBefore 22 := by
    unfold QuietBefore
    decide +kernel
  refine ⟨hw, hstay, hd, hfit, hq, ?_⟩
  obtain ⟨T, hT, hread⟩ := committed_product hw hstay hd rfl hfit (k := 1) (by decide) (c := 2) (by decide) hq
  have hfirst : prefetch.InUse 1 (prefetch.storedTile 1) := InUse.read (r := 0) (by decide +kernel)
  have hcount : prefetch.switchesBefore 13 = 1 := by decide +kernel
  rw [hcount] at hT
  rw [hT.unique hfirst] at hread
  exact hread.trans (by decide +kernel)

/-- The span of the first multiplication is `2 ^ 64`, so that its counter starts at zero. -/
def overrun : Course where
  chip :=
    { size := 4, padRows := 1, accRows := 4, hostRows := 1, tiles := 1, latency := 0, layout := { length := 8 } }
  valid := Chip.flaw?_eq_none_iff.1 (by decide)
  program := ⟨[.readWeights 0, .sync, (Instruction.multiply 0 0 18446744073709551606).withSwitch, .multiply 0 2 1,
    .halt]⟩
  start :=
    { pad := ⟨4, #[[1, 2, 3, 4]]⟩
      host := .blank 1 4
      acc := ⟨#[[0, 0, 0, 0], [0, 0, 0, 0], [0, 0, 0, 0], [0, 0, 0, 0]]⟩
      weights := ⟨#[List.replicate 16 1]⟩ }
  fits := ⟨⟨by decide, by decide⟩, ⟨by decide, by decide⟩⟩
  pokes _ := []

/-- The next multiplication takes the place of one whose span does not fit, and its second row is never written. -/
theorem not_committed_product : ¬ ∀ (C : Course), C.TilesStay → ∀ d k c i, C.issued d = some i → i.opcode = .multiply →
    k < i.length.toNat → c < C.chip.size → C.QuietBefore (d + 2 + k + C.chip.size + c + 1) →
      ∃ T, C.InUse (C.switchesBefore (d + 1)) T ∧
        (C.machine (d + 2 + k + C.chip.size + c)).ticked.memories.acc.read c (i.memAddr + UInt64.ofNat k) =
          if i.has Instruction.overwriteBit then C.rowProduct d i k T c
          else Word.wrap C.chip.accWidth ((C.machine (d + 2 + k + C.chip.size + c)).memories.acc.read c
            (i.memAddr + UInt64.ofNat k) + C.rowProduct d i k T c) := by
  intro h
  have hd : overrun.issued 11 = some (Instruction.multiply 0 0 18446744073709551606).withSwitch := by decide +kernel
  have hq : overrun.QuietBefore 19 := by
    unfold QuietBefore
    decide +kernel
  obtain ⟨T, hT, hread⟩ := h overrun (fun _ _ h => by cases h) 11 1 0 _ hd rfl (by decide) (by decide) hq
  have hfirst : overrun.InUse 1 (overrun.storedTile 0) := InUse.read (r := 0) (by decide +kernel)
  have hcount : overrun.switchesBefore 12 = 1 := by decide +kernel
  rw [hcount] at hT
  rw [hT.unique hfirst] at hread
  exact absurd hread (by decide +kernel)

end Systolic.Course
