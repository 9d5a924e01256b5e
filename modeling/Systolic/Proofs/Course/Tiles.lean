import Systolic.Proofs.Course.Rows

/-!
# The tiles of a course

A weight read that is dispatched in cycle `r` reaches the tile reader in cycle `r + 1`. The reader is done with a tile
long before the next read can be dispatched (`regular_supply`), so the queue gets whole tiles in the order of the reads,
and the array is offered them in this order (`offers_array`).
-/

namespace Systolic

/-- The tile that a weight read names. -/
def Instruction.tile? (i : Instruction) : Option UInt64 := if i.opcode = .readWeights then some i.memAddr else none

/-- The tile that an instruction names is the one that its command asks for. -/
theorem Sequencer.tile?_eq (chip : Chip) (pad : RowStore) (pc : UInt64) (i : Instruction) :
    i.tile? = (command? chip pad pc i).bind (·.tile?) := by
  cases ho : i.opcode <;> simp [command?, ho, Instruction.tile?, Command.tile?]
  split <;> rfl

theorem Chip.Valid.burstElems_pos {c : Chip} (h : c.Valid) : 0 < c.burstElems := by
  have hd := h.dataWidth
  exact Nat.div_pos (Nat.le_of_dvd (by have := h.burst.1; omega) h.burst.2) (by omega)

namespace Course

variable (C : Course)

/-- Weight reads dispatched before cycle `t`. -/
def readCount (t : Nat) : Nat := Nat.count (fun u => ((C.dispatched u).bind (·.tile?)).isSome = true) t

/-- The span of every weight read that is dispatched fits its counter. -/
def ReadsFit : Prop := ∀ r a, (C.dispatched r).bind (·.tile?) = some a → C.chip.weightSpan < 2 ^ 64

variable {C}

theorem size_pos : 0 < C.array.chip.size := Nat.lt_of_lt_of_le (by decide) C.valid.size

/-! ## Requests -/

theorem request_zero : C.supply.request 0 = none := by
  simp only [supply, issue_zero]
  rfl

theorem request_succ (t : Nat) : C.supply.request (t + 1) = (C.dispatched t).bind (·.tile?) := by
  have h : C.supply.request (t + 1) = (C.issue (t + 1)).bind (·.tile?) := rfl
  rw [h, issue_succ]
  cases C.dispatched t with
  | none => rfl
  | some i => exact (Sequencer.tile?_eq _ _ _ i).symm

/-- The tiles requested before a cycle are those of the weight reads dispatched until then. -/
theorem requested_succ (t : Nat) : C.supply.requested (t + 1) = C.readCount t := by
  rw [Supply.requested, Nat.count_succ', if_neg (by simp [request_zero])]
  simp only [request_succ, Nat.add_zero]
  rfl

theorem weightsSet_of_request {t : Nat} {a : UInt64} (h : C.supply.request t = some a) :
    (C.issue t).bind (Sequencer.weightsSet C.chip) = some C.chip.weightSpan := by
  obtain ⟨c, hc, ha⟩ := Option.bind_eq_some_iff.1 h
  rw [hc, Option.bind_some, Sequencer.weightsSet, ha]
  rfl

section Fit

variable (hw : C.ReadsFit)
include hw

theorem ReadsFit.of_request {t : Nat} {a : UInt64} (h : C.supply.request t = some a) : C.chip.weightSpan < 2 ^ 64 := by
  cases t with
  | zero => rw [request_zero] at h; cases h
  | succ r => exact hw r a ((request_succ r).symm.trans h)

/-- What the reader still has to do ends long before the weight units are idle. -/
theorem left_le_busy {t : Nat} {j : TileReader.Job} (h : (C.supply.reader t).job = some j) :
    j.left C.chip + C.chip.size + 3 ≤ (C.sequencer t).busy.weights.toNat := by
  have hc := countdown (C := C) (Sequencer.counts_weights C.chip)
  induction t generalizing j with
  | zero => cases h
  | succ t ih =>
    have hdown : (C.sequencer t).busy.weights.toNat ≤ (C.sequencer (t + 1)).busy.weights.toNat + 1 := by
      have hs := hc.succ t
      cases hset : (C.issue (t + 1)).bind (Sequencer.weightsSet C.chip) with
      | none => rw [hset, Option.map_none, Option.getD_none] at hs; omega
      | some n => have := hc.ready t (by rw [hset]; rfl); omega
    rw [Supply.job_succ] at h
    cases hreq : C.supply.request t with
    | some a =>
      rw [hreq] at h
      cases h
      have hcount := hc.count_eq (weightsSet_of_request hreq) (hw.of_request hreq) 0 (Nat.zero_le _)
      simp only [Nat.add_zero, Nat.sub_zero, Chip.weightSpan, queueDepth] at hcount
      simp only [TileReader.Job.left, supply]
      omega
    | none =>
      rw [hreq] at h
      have hrest := Supply.left_rest (show C.supply.rest t = some j from h)
      cases hj : (C.supply.reader t).job with
      | none => simp [Supply.left, hj] at hrest
      | some i =>
        have := ih hj
        simp only [Supply.left, hj, Option.map_some, Option.getD_some] at hrest
        change j.left C.chip + 1 = i.left C.chip at hrest
        omega

/-- A request comes only after a cycle in which the reader had nothing to do. -/
theorem rests_before_request {t : Nat} (h : (C.supply.request (t + 1)).isSome = true) :
    (C.supply.reader t).job = none ∧ C.supply.request t = none := by
  obtain ⟨a, ha⟩ := Option.isSome_iff_exists.1 h
  have hc := countdown (C := C) (Sequencer.counts_weights C.chip)
  have hidle := hc.ready t (by rw [weightsSet_of_request ha]; rfl)
  constructor
  · by_contra hne
    obtain ⟨j, hj⟩ := Option.ne_none_iff_exists'.1 hne
    have := left_le_busy hw hj
    omega
  · by_contra hne
    obtain ⟨b, hb⟩ := Option.ne_none_iff_exists'.1 hne
    have hcount := hc.count_eq (weightsSet_of_request hb) (hw.of_request hb) 0 (Nat.zero_le _)
    simp only [Nat.add_zero, Nat.sub_zero, Chip.weightSpan, queueDepth] at hcount
    omega

theorem regular_supply : C.supply.Regular where
  size := size_pos
  burst := C.valid.burstElems_pos
  tiles t a := (fits_free t).weights.length_read a
  spaced t h := by
    cases t with
    | zero => rw [request_zero] at h; cases h
    | succ t =>
      obtain ⟨hjob, hreq⟩ := rests_before_request hw h
      have hnext : (C.supply.reader (t + 1)).job = none := by
        rw [Supply.job_succ, hreq, (Supply.burst_of_none hjob).2]
        rfl
      exact (Supply.burst_of_none hnext).2

end Fit

/-! ## The front of the queue -/

theorem fedBy_array : C.array.FedBy C.row? := Mesh.Run.fedBy_behindSkew

/-- The switches that have entered are those dispatched two cycles earlier. -/
theorem entered_eq (t : Nat) : C.array.entered (t + 2) = C.switchCount t := by
  rw [← switched_rows]
  exact Mesh.Run.entered_eq_switched fedBy_array size_pos (t + 1)

theorem holds_array : C.array.Holds := by
  intro t hf ht
  rw [front_array] at hf ⊢
  have hadv : C.supply.advance t = false := ht
  rw [Supply.front_succ, hadv]
  cases hq : (C.supply.queue t).front with
  | none => simp [hq] at hf
  | some T => rfl

/-- A tile leaves the queue exactly when the array takes it. -/
theorem leaves_eq (t : Nat) : C.supply.leaves t = C.array.takes t := by
  have h : C.supply.leaves t = (C.array.takes t && (C.supply.queue t).front.isSome) := rfl
  rw [h]
  cases ht : C.array.takes t with
  | false => rfl
  | true =>
    obtain ⟨k, hk, -⟩ := Mesh.Run.takes_iff.1 ht
    rw [← front_array, Mesh.Run.front_of_programming holds_array hk]
    rfl

theorem gone_eq (t : Nat) : C.supply.gone t = C.array.taken t := by
  simp only [Supply.gone, Mesh.Run.taken, leaves_eq]

/-- The array is offered the tiles in the order in which they were read. -/
theorem offers_array (hw : C.ReadsFit) {store : TileStore} (hfix : C.supply.Fixed store) {t : Nat}
    (hq : C.QuietBefore t) :
    C.array.Offers (C.supply.tile store) t where
  holds := holds_array
  size _ := rfl
  front u hu T hT := by
    rw [front_array] at hT
    rw [← gone_eq]
    exact (Supply.holding (regular_supply hw) hfix (hq.mono (by omega : u ≤ t)).kept).front T hT

/-- **Products in a course.** A row that is pushed in cycle `t` leaves column `c` as its product with the tile in use
after the switches pushed up to this row. -/
theorem sums_array (hw : C.ReadsFit) {store : TileStore} (hfix : C.supply.Fixed store) {t : Nat}
    {x : MatrixRow} (hx : C.row? t = some x) {c : Nat} (hc : c < C.chip.size)
    (hq : C.QuietBefore (t + C.chip.size + 1 + c)) :
    (C.array.output (t + C.chip.size + 1 + c)).sums[c]? = some (Tile.product C.chip.accWidth x.data
      (Tile.inUse C.chip.size (C.supply.tile store) (MatrixRow.switched C.row? (t + 1))) c) :=
  Mesh.Run.sums_output fedBy_array hx hc (offers_array hw hfix hq) hq.safe

end Course

end Systolic
