import Systolic.Proofs.Course.Tiles
import Systolic.Proofs.Storage.Columns

/-!
# Sums in the accumulators

The control of a row that is pushed in cycle `t` reaches column `c` in cycle `t + N + 1 + c`, together with the row's sum
in that column (`arriving_eq`). At the end of the cycle the sum replaces the element of the accumulator that the control
names, or is added to it (`elem_acc_succ`).
-/

namespace Systolic

/-! ## One cycle of the control chain -/

namespace ControlChain

variable (chain : ControlChain) (accWidth : Nat) (control : Wire AccControl) (sums : Row) (store : AccStore)

theorem mem_writes {w : AccStore.Write} : w ∈ (chain.step accWidth control sums store).2.writes ↔
    ∃ c sum k, sums[c]? = some sum ∧ chain.at? control c = some k ∧ w = write accWidth store c sum k := by
  simp only [step, List.mem_filterMap, List.mem_mapIdx, id]
  constructor
  · rintro ⟨_, ⟨c, hc, rfl⟩, h⟩
    obtain ⟨k, hk, rfl⟩ := Option.map_eq_some_iff.1 h
    exact ⟨c, sums[c], k, List.getElem?_eq_getElem hc, hk, rfl⟩
  · rintro ⟨c, sum, k, hs, hk, rfl⟩
    obtain ⟨hc, rfl⟩ := List.getElem?_eq_some_iff.1 hs
    exact ⟨_, ⟨c, hc, rfl⟩, by rw [hk]; rfl⟩

theorem pairwise_writes :
    (chain.step accWidth control sums store).2.writes.Pairwise fun v w => v.column ≠ w.column := by
  rw [step, List.pairwise_filterMap, List.pairwise_iff_getElem]
  intro i j hi hj hij v hv w hw
  rw [List.getElem_mapIdx] at hv hw
  obtain ⟨k, -, rfl⟩ := Option.map_eq_some_iff.1 hv
  obtain ⟨l, -, rfl⟩ := Option.map_eq_some_iff.1 hw
  exact Nat.ne_of_lt hij

/-- What one cycle leaves in column `c`, where `sum` leaves the array. -/
theorem elem_writes {columns : Nat} (hf : store.Fits columns) {c : Nat} (hc : c < columns) {sum : Word}
    (hs : sums[c]? = some sum) (k : Nat) :
    (store.apply (chain.step accWidth control sums store).2.writes).elem c k =
      match chain.at? control c with
      | some ctl => if k = store.slot ctl.accAddr then (write accWidth store c sum ctl).value else store.elem c k
      | none => store.elem c k := by
  cases hk : chain.at? control c with
  | some ctl =>
    exact AccStore.elem_apply_of_mem hf (pairwise_writes chain accWidth control sums store)
      ((mem_writes chain accWidth control sums store).2 ⟨c, sum, ctl, hs, hk, rfl⟩) hc k
  | none =>
    refine AccStore.elem_apply_of_ne (fun w hw hcol => ?_) k
    obtain ⟨d, s, ctl, -, hd, rfl⟩ := (mem_writes chain accWidth control sums store).1 hw
    obtain rfl : d = c := hcol
    rw [hk] at hd
    cases hd

end ControlChain

namespace Course

variable (C : Course)

/-- The control that leaves the skew lines in cycle `t`. -/
def control (t : Nat) : Wire AccControl := (SkewLines.shown C.chip.size C.row? t).control

/-- The control that column `c` acts on in cycle `t`. -/
def arriving (c t : Nat) : Option AccControl := (C.free t).pipeline.chain.at? (C.control t) c

variable {C}

/-- Column `c` acts on the control of the row that was pushed `N + 1 + c` cycles ago. -/
theorem arriving_eq {c : Nat} (hc : c < C.chip.size) (t : Nat) :
    C.arriving c t = delayed (C.chip.size + 1 + c) (fun u => (C.row? u).map (·.control)) t := by
  have hstart : (C.free 0).pipeline.chain = .idle C.chip.size := congrArg (·.chain) pipeline_free_zero
  have hidle : ∀ w ∈ (C.free 0).pipeline.chain.hops, w.valid = false := by
    intro w hw
    rw [hstart] at hw
    rw [List.eq_of_mem_replicate hw]
    rfl
  have hnext : ∀ t, (C.free (t + 1)).pipeline.chain.hops =
      (C.control t :: (C.free t).pipeline.chain.hops).dropLast := by
    intro t
    have hstep : (C.free t).step.1.pipeline.chain.hops =
        (((C.free t).pipeline.skew.step (C.row? t)).2.control :: (C.free t).pipeline.chain.hops).dropLast := rfl
    rw [pipeline_free_succ, hstep, (skew_mesh_free t).1]
    rfl
  have hcolumn : c ≤ (C.free 0).pipeline.chain.hops.length := by
    simp only [hstart, ControlChain.idle, List.length_replicate]
    omega
  exact ControlChain.at?_shown (fun t => (C.free t).pipeline.chain) hidle hnext hcolumn t

theorem acc_succ (t : Nat) : (C.memories (t + 1)).acc = (C.memories t).acc.apply
    ((C.free t).pipeline.chain.step C.chip.accWidth (C.control t) (C.array.output t).sums
      (C.memories t).acc).2.writes := by
  have hstep : (C.free t).step.1.memories.acc = (C.memories t).acc.apply
      (((C.free t).pipeline.chain.step (C.free t).chip.accWidth ((C.free t).pipeline.skew.step (C.row? t)).2.control
        ((C.free t).pipeline.mesh.step (C.free t).chip ((C.free t).pipeline.skew.step (C.row? t)).2.lanes
          (C.free t).pipeline.queue.front).2.sums (C.memories t).acc).2.writes) := rfl
  have hnext : (C.memories (t + 1)).acc = (C.free t).step.1.memories.acc := Machine.acc_pokeAll _ _
  rw [hnext, hstep, ← output_array, (skew_mesh_free t).1, chip_free]
  rfl

/-- What a cycle leaves in column `c` of the accumulators. -/
theorem elem_acc_succ {c : Nat} (hc : c < C.chip.size) {t : Nat} {sum : Word}
    (hs : (C.array.output t).sums[c]? = some sum) (k : Nat) :
    (C.memories (t + 1)).acc.elem c k =
      match C.arriving c t with
      | some ctl =>
        if k = (C.memories t).acc.slot ctl.accAddr then
          if ctl.overwrite then sum else Word.wrap C.chip.accWidth ((C.memories t).acc.read c ctl.accAddr + sum)
        else (C.memories t).acc.elem c k
      | none => (C.memories t).acc.elem c k := by
  rw [acc_succ]
  exact ControlChain.elem_writes _ _ _ _ _ (fits_free t).acc hc hs k

@[simp] theorem depth_acc (t : Nat) : (C.memories t).acc.depth = C.start.acc.depth := by
  induction t with
  | zero => exact congrArg AccStore.depth (Machine.acc_pokeAll C.first _)
  | succ t ih => rw [acc_succ, AccStore.depth_apply, ih]

end Course

end Systolic
