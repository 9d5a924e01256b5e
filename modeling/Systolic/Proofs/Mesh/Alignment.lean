import Systolic.Proofs.Mesh.Wavefront

/-!
# Sums and their control

The way of a row from the scratchpad to the accumulators: the skew lines, the array and the control chain, from a reset
on. All three are delays. Lane `r` shows the row that was pushed `r + 1` cycles ago; column `c` of the accumulators acts on
the control of the row that was pushed `N + 1 + c` cycles ago, and that is the row whose sum leaves the array in this
column (`Datapath.Reachable.aligned`). Neither hazards nor what the units did before the reset changes this: a reset
leaves values on the hops, but none that count.
-/

namespace Systolic

/-! ## Resets -/

namespace SkewLines

theorem clear_idle (size : Nat) : (idle size).clear = idle size := by
  simp [clear, idle, Function.comp_def]

theorem clear_step (s : SkewLines) (row? : Option MatrixRow) : (s.step row?).1.clear = s.clear := by
  have hlanes : (s.step row?).1.lanes.map DelayLine.clear = s.lanes.map DelayLine.clear := by
    apply List.ext_getElem
    · simp [step]
    · intro r h1 h2
      simp [step]
  rw [clear, hlanes, step, DelayLine.clear_shift, clear]

theorem clear_clear (s : SkewLines) : s.clear.clear = s.clear := by
  simp [clear, Function.comp_def]

end SkewLines

namespace Mesh

theorem clear_idle (size : Nat) : (idle size).clear = idle size := by
  simp [clear, idle, Function.comp_def]

theorem clear_step {chip : Chip} {mesh : Mesh} (h : mesh.clear = idle chip.size) (lanes : List Lane)
    (front? : Option Tile) : (mesh.step chip lanes front?).1.clear = idle chip.size := by
  have hcells : (mesh.step chip lanes front?).1.cells.map (fun row => row.map fun _ => ({} : Cell)) =
      (idle chip.size).cells := by
    simp [step, nextCells, idle, Function.comp_def]
  have htop : (mesh.step chip lanes front?).1.top.map DelayLine.clear = mesh.top.map DelayLine.clear := by
    apply List.ext_getElem
    · simp [step]
    · intro c h1 h2
      simp [step]
  have hlines : mesh.top.map DelayLine.clear = (idle chip.size).top := congrArg (·.top) h
  rw [clear, hcells, htop, hlines]
  rfl

theorem clear_clear (mesh : Mesh) : mesh.clear.clear = mesh.clear := by
  simp [clear, Function.comp_def]

end Mesh

theorem ControlChain.clear_idle (size : Nat) : (idle size).clear = idle size := by
  rw [clear, idle, List.map_replicate]
  rfl

/-! ## The way of a row -/

/-- The registers on the way of a row. -/
structure Datapath where
  skew : SkewLines
  mesh : Mesh
  chain : ControlChain

namespace Datapath

/-- What the units see of their surroundings in a cycle. -/
structure Input where
  /-- The row that is pushed. -/
  row? : Option MatrixRow
  /-- The tile at the front of the queue. -/
  front? : Option Tile
  /-- What the accumulators are given to take in, one sum for each column. -/
  sums : Row
  store : AccStore

structure Output where
  lanes : List Lane
  product : Mesh.Output
  committed : ControlChain.Output

def idle (size : Nat) : Datapath := ⟨.idle size, .idle size, .idle size⟩

/-- One cycle. The lanes enter the array, and the control that leaves the skew lines enters the chain, in the same
cycle. -/
def step (chip : Chip) (d : Datapath) (i : Input) : Datapath × Output :=
  let skewed := d.skew.step i.row?
  let product := d.mesh.step chip skewed.2.lanes i.front?
  let committed := d.chain.step chip.accWidth skewed.2.control i.sums i.store
  (⟨skewed.1, product.1, committed.1⟩, ⟨skewed.2.lanes, product.2, committed.2⟩)

def clear (d : Datapath) : Datapath := ⟨d.skew.clear, d.mesh.clear, d.chain.clear⟩

/-- What cycles and resets make of the units at power-on. -/
inductive Reachable (chip : Chip) : Datapath → Prop
  | idle : Reachable chip (idle chip.size)
  | step {d : Datapath} (i : Input) : Reachable chip d → Reachable chip (d.step chip i).1
  | clear {d : Datapath} : Reachable chip d → Reachable chip d.clear

variable (chip : Chip) (d : Datapath) (inputs : Nat → Input)

/-- The units in cycle `t` of a run. -/
def after : Nat → Datapath
  | 0 => d
  | t + 1 => ((after t).step chip (inputs t)).1

/-- What the units show in cycle `t` of a run. -/
def shown (t : Nat) : Output := ((d.after chip inputs t).step chip (inputs t)).2

/-- The row that was pushed `n` cycles before cycle `t`, if the run is that old and a row was pushed. -/
def pushed (n t : Nat) : Option MatrixRow := delayed n (fun u => (inputs u).row?) t

/-- The array of a run from power-on. -/
def array : Mesh.Run := .behindSkew chip (fun u => (inputs u).row?) fun u => (inputs u).front?

/-- What cycle `t` of a run shows, told by the rows that were pushed before. -/
structure Aligned (t : Nat) : Prop where
  /-- Lane `r` shows the row that was pushed `r + 1` cycles ago: its element `r`, or zero if the row is too short, and its
  switch. It is valid if there was such a row. -/
  lanes : (d.shown chip inputs t).lanes = (List.range chip.size).map fun r =>
    match pushed inputs (r + 1) t with
    | some x => { data := x.data.getD r 0, valid := true, switch := x.switch }
    | none => { data := 0, valid := false, switch := false }
  /-- Column `c` acts on the control of the row that was pushed `N + 1 + c` cycles ago, and on nothing else. -/
  writes : (d.shown chip inputs t).committed.writes = (List.range chip.size).filterMap fun c =>
    (pushed inputs (chip.size + 1 + c) t).map fun x =>
      ControlChain.write chip.accWidth (inputs t).store c ((inputs t).sums.getD c 0) x.control
  /-- A multiplication is done when its last row is the one that the last column acts on. -/
  done : (d.shown chip inputs t).committed.done = true ↔
    ∃ x, pushed inputs (chip.size + 1 + (chip.size - 1)) t = some x ∧ x.control.last = true
  /-- The sum that leaves column `c` is what the very row has gathered on whose control the column acts, with the weights
  that its elements met. -/
  sum : ∀ c < chip.size, (d.shown chip inputs t).product.sums[c]? =
    some (MatrixRow.gathered chip.accWidth chip.size
      (fun r => ((d.after chip inputs (t + r + 1 - chip.size)).mesh.cell r c).current)
      (pushed inputs (chip.size + 1 + c) t))

variable {chip d inputs}

/-! ## A reset -/

/-- Power-on is a reset as well. -/
theorem clear_idle (size : Nat) : (idle size).clear = idle size := by
  rw [clear, idle, SkewLines.clear_idle, Mesh.clear_idle, ControlChain.clear_idle]

/-- A reset puts the skew lines and the array back to power-on. -/
theorem Reachable.clear_skew_mesh (h : Reachable chip d) :
    d.clear.skew = .idle chip.size ∧ d.clear.mesh = .idle chip.size := by
  induction h with
  | idle =>
    rw [clear_idle]
    exact ⟨rfl, rfl⟩
  | step i _ ih => exact ⟨(SkewLines.clear_step _ _).trans ih.1, Mesh.clear_step ih.2 _ _⟩
  | clear _ ih => exact ⟨(SkewLines.clear_clear _).trans ih.1, (Mesh.clear_clear _).trans ih.2⟩

theorem Reachable.length_hops (h : Reachable chip d) : d.chain.hops.length = chip.size - 1 := by
  induction h with
  | idle => simp [Datapath.idle, ControlChain.idle]
  | step i _ ih => simpa [Datapath.step, ControlChain.step] using ih
  | clear _ ih => simpa [Datapath.clear, ControlChain.clear] using ih

/-- A reset leaves no control on the hops that counts. -/
theorem valid_of_mem_hops_clear {w : Wire AccControl} (hw : w ∈ d.clear.chain.hops) : w.valid = false := by
  obtain ⟨old, -, rfl⟩ := List.mem_map.1 hw
  rfl

/-! ## Runs from a reset -/

section Run

variable (hd : d.Reachable chip) (t : Nat)
include hd

/-- The skew lines do not depend on the other units. -/
theorem skew_after : (d.clear.after chip inputs t).skew =
    SkewLines.trace chip.size (fun u => (inputs u).row?) t := by
  induction t with
  | zero => exact hd.clear_skew_mesh.1
  | succ t ih =>
    rw [after, step, ih]
    rfl

theorem skew_shown : ((d.clear.after chip inputs t).skew.step (inputs t).row?).2 =
    SkewLines.shown chip.size (fun u => (inputs u).row?) t := by
  rw [skew_after hd]
  rfl

theorem mesh_after : (d.clear.after chip inputs t).mesh = (array chip inputs).mesh t := by
  induction t with
  | zero => exact hd.clear_skew_mesh.2
  | succ t ih =>
    rw [after, step, skew_shown hd, ih]
    rfl

/-- Lane `r` shows the row that was pushed `r + 1` cycles ago. -/
theorem lanes_shown : (d.clear.shown chip inputs t).lanes =
    (List.range chip.size).map fun r => SkewLines.entering (pushed inputs (r + 1) t) r := by
  have hshown : (d.clear.shown chip inputs t).lanes = (SkewLines.shown chip.size (fun u => (inputs u).row?) t).lanes := by
    rw [← skew_shown hd]
    rfl
  rw [hshown, SkewLines.lanes_shown]
  apply List.map_congr_left
  intro r _
  exact (map_delayed (fun row? => SkewLines.entering row? r) rfl _ _ _).symm

/-- Column `c` acts on the control of the row that was pushed `N + 1 + c` cycles ago. -/
theorem control_shown {c : Nat} (hc : c < chip.size) : (d.clear.after chip inputs t).chain.at?
    ((d.clear.after chip inputs t).skew.step (inputs t).row?).2.control c =
      (pushed inputs (chip.size + 1 + c) t).map (·.control) := by
  have hnext : ∀ t, (d.clear.after chip inputs (t + 1)).chain.hops =
      ((SkewLines.shown chip.size (fun u => (inputs u).row?) t).control ::
        (d.clear.after chip inputs t).chain.hops).dropLast := by
    intro t
    rw [← skew_shown hd]
    rfl
  have hcolumn : c ≤ (d.clear.after chip inputs 0).chain.hops.length := by
    rw [after, hd.clear.length_hops]
    omega
  rw [skew_shown hd, pushed, map_delayed (fun row? : Option MatrixRow => row?.map (·.control)) rfl]
  exact ControlChain.at?_shown (fun t => (d.clear.after chip inputs t).chain) (fun w hw => valid_of_mem_hops_clear hw)
    hnext hcolumn t

/-- What leaves column `c` is what the row pushed `N + 1 + c` cycles ago has gathered. -/
theorem sums_shown {c : Nat} (hc : c < chip.size) : (d.clear.shown chip inputs t).product.sums[c]? =
    some (MatrixRow.gathered chip.accWidth chip.size
      (fun r => ((d.clear.after chip inputs (t + r + 1 - chip.size)).mesh.cell r c).current)
      (pushed inputs (chip.size + 1 + c) t)) := by
  have hproduct : (d.clear.shown chip inputs t).product = (array chip inputs).output t := by
    rw [shown, step, skew_shown hd, mesh_after hd]
    rfl
  rw [hproduct, (array chip inputs).getElem?_sums_output Mesh.Run.fedBy_behindSkew hc]
  simp only [mesh_after hd]
  rfl

variable {t} (hsums : (inputs t).sums.length = chip.size)
include hsums

theorem writes_shown : (d.clear.shown chip inputs t).committed.writes = (List.range chip.size).filterMap fun c =>
    (pushed inputs (chip.size + 1 + c) t).map fun x =>
      ControlChain.write chip.accWidth (inputs t).store c ((inputs t).sums.getD c 0) x.control := by
  rw [shown, step, ControlChain.writes_step, hsums]
  apply List.filterMap_congr
  intro c hc
  rw [control_shown hd t (List.mem_range.1 hc), Option.map_map]
  rfl

theorem done_shown (hN : 1 ≤ chip.size) : (d.clear.shown chip inputs t).committed.done =
    (pushed inputs (chip.size + 1 + (chip.size - 1)) t).any (·.control.last) := by
  rw [shown, step, ControlChain.step, hsums, control_shown hd t (by omega), Option.any_map]
  simp only [decide_eq_true (show 0 < chip.size from hN), Bool.true_and]

end Run

/-- **Sums and their control stay together.** From power-on or a reset on, whatever the units did before, every lane and
every column shows in every cycle the row that was pushed a fixed number of cycles ago, and the sum that leaves a column
belongs to the row on whose control the column acts. -/
theorem Reachable.aligned (hN : 1 ≤ chip.size) (hd : d.Reachable chip) {t : Nat}
    (hsums : (inputs t).sums.length = chip.size) : d.clear.Aligned chip inputs t where
  lanes := by
    rw [lanes_shown hd]
    apply List.map_congr_left
    intro r _
    cases pushed inputs (r + 1) t <;> rfl
  writes := writes_shown hd hsums
  done := by rw [done_shown hd hsums hN, Option.any_eq_true]
  sum c hc := sums_shown hd t hc

theorem Reachable.after (hd : d.Reachable chip) (t : Nat) : (d.after chip inputs t).Reachable chip := by
  induction t with
  | zero => exact hd
  | succ t ih => exact ih.step (inputs t)

/-- A chip of three columns. -/
def threeColumns : Chip := { size := 3 }

/-- The units in the middle of a run, with the control of a row on the first hop. -/
def underWay : Datapath :=
  (idle 3).after threeColumns (fun t =>
    { row? := if t = 0 then some ⟨[1, 2, 3], false, ⟨9, true, true⟩⟩ else none
      front? := none
      sums := [0, 0, 0]
      store := .blank 3 8 }) 5

/-- A row with a switch, and a short one right behind it. -/
def twoRows (t : Nat) : Input :=
  { row? := match t with
      | 3 => some ⟨[1, 2, 3], true, ⟨5, true, false⟩⟩
      | 4 => some ⟨[10, 20], false, ⟨6, false, true⟩⟩
      | _ => none
    front? := if t ≤ 3 then some (.ofRow 3 [1, 2, 3, 4, 5, 6, 7, 8, 9]) else none
    sums := [100, 200, 300]
    store := .blank 3 8 }

/-- After a reset that leaves a control on the first hop, column 0 acts on the second row while column 1 still acts on the
first one, and so do the sums that leave the array. -/
theorem Reachable.aligned_underWay : underWay.Reachable threeColumns ∧
    underWay.clear.chain.hops[0]? = some ⟨⟨9, true, true⟩, false⟩ ∧
    (underWay.clear.shown threeColumns twoRows 8).committed.writes = [⟨0, 6, 100⟩, ⟨1, 5, 200⟩] ∧
    (underWay.clear.shown threeColumns twoRows 8).product.sums[0]? = some (10 * 1 + 20 * 4) ∧
    (underWay.clear.shown threeColumns twoRows 8).product.sums[1]? = some (1 * 2 + 2 * 5 + 3 * 8) := by
  have hreach : underWay.Reachable threeColumns := Reachable.idle.after 5
  have h : underWay.clear.Aligned threeColumns twoRows 8 := Reachable.aligned (by decide) hreach rfl
  refine ⟨hreach, by decide +kernel, h.writes.trans (by decide +kernel), ?_, ?_⟩
  · exact (h.sum 0 (by decide)).trans (by decide +kernel)
  · exact (h.sum 1 (by decide)).trans (by decide +kernel)

end Datapath

end Systolic
