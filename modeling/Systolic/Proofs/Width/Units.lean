import Systolic.Proofs.Course.Commit
import Systolic.Proofs.Course.Rows
import Systolic.Proofs.Machine.Shape
import Systolic.Proofs.Storage.Signed

/-!
# The width of what the units hold

Data, weights and the rows between the units are signed numbers of the data width, sums and accumulators of the
accumulator width. For each unit: what it shows has its width if what it sees has (`Outcome.signed_writeback`,
`HostLink.signed_respond`, `Mesh.Signed.step`, `TileQueue.Signed.step`, `ControlChain.signed_writes`).
-/

namespace Systolic

/-! ## Registers in series -/

namespace DelayLine

variable {α : Type} {P : α → Prop} {line : DelayLine α} {input : α}

/-- What holds of every register and of the input holds of every register after the edge. -/
theorem forall_shift (h : ∀ a ∈ line.regs, P a) (hin : P input) : ∀ a ∈ (line.shift input).regs, P a := by
  intro a ha
  rcases List.mem_cons.1 (List.mem_of_mem_dropLast ha) with rfl | ha
  · exact hin
  · exact h a ha

/-- What leaves a line is a register or, without registers, the input. -/
theorem of_output (h : ∀ a ∈ line.regs, P a) (hin : P input) : P (line.output input) := by
  unfold output
  cases hlast : line.regs.getLast? with
  | none => exact hin
  | some a => exact h a (List.mem_of_getLast? hlast)

theorem forall_idle [Inhabited α] (h : P default) (n : Nat) : ∀ a ∈ (idle n : DelayLine α).regs, P a := by
  intro a ha
  rw [List.eq_of_mem_replicate ha]
  exact h

end DelayLine

/-! ## Rows that the units make up -/

variable {chip : Chip}

theorem Chip.Valid.signed_data (h : chip.Valid) (v : Word) :
    Word.Signed chip.dataWidth (Word.wrap chip.dataWidth v) := by
  have hdata := h.dataWidth
  apply Word.signed_wrap
  · omega
  · omega

theorem Chip.Valid.signed_acc (h : chip.Valid) (v : Word) : Word.Signed chip.accWidth (Word.wrap chip.accWidth v) := by
  have hdata := h.dataWidth
  have hacc := h.accWidth
  apply Word.signed_wrap
  · omega
  · omega

theorem Chip.Valid.signed_row (h : chip.Valid) (row : Row) : Row.Signed chip.dataWidth (row.wrap chip.dataWidth) := by
  intro v hv
  obtain ⟨u, -, rfl⟩ := List.mem_map.1 hv
  exact h.signed_data u

theorem Outcome.signed_ofBool (h : chip.Valid) (b : Bool) : Word.Signed chip.dataWidth (ofBool b) := by
  apply Word.signed_of_lt_eight h.dataWidth.1
  · cases b <;> decide
  · cases b <;> decide

/-- Whatever accumulator row is read: what is written back has the data width. -/
theorem Outcome.signed_writeback (h : chip.Valid) (function : Activation) (first : Bool) (row : Row) {out : Row}
    (hout : (decode chip function first row).writeback? = some out) : out.Signed chip.dataWidth := by
  have hrow := h.signed_row row
  have hzero := Word.signed_zero chip.dataWidth
  unfold decode at hout
  dsimp only at hout
  split at hout
  · cases hout
  · cases hout
  · obtain rfl := Option.some.inj hout
    apply Row.Signed.set _ hzero
    apply Row.Signed.set _ hzero
    exact hrow.set (signed_ofBool h _) 0
  · obtain rfl := Option.some.inj hout
    exact hrow.set (signed_ofBool h _) 0
  · obtain rfl := Option.some.inj hout
    exact h.signed_row _

theorem Activator.signed_write (h : chip.Valid) (a : Activator) (issue : Option ActivationRun) (store : AccStore)
    {w : RowStore.Write} (hw : (a.step chip issue store).2.write = some w) : w.row.Signed chip.dataWidth := by
  unfold step at hw
  split at hw
  · cases hw
  · split at hw
    · cases hw
    · unfold Job.step at hw
      dsimp only at hw
      split at hw
      · cases hw
      · obtain ⟨row, hrow, rfl⟩ := Option.map_eq_some_iff.1 hw
        exact Outcome.signed_writeback h _ _ _ hrow

/-! ## The host link -/

namespace HostLink

theorem signed_jumpRow (h : chip.Valid) (target : UInt64) : (jumpRow chip target).Signed chip.dataWidth := by
  apply Row.Signed.set
  · apply Row.Signed.set
    · exact (Row.signed_nil _).fit _
    · exact h.signed_data _
  · exact Word.signed_of_lt_eight h.dataWidth.1 (by decide) (by decide)

/-- A response is a host row or a jump row. -/
theorem signed_respond (h : chip.Valid) (link : HostLink) {host : RowStore} (hhost : host.Signed chip.dataWidth)
    (issue : Option Command) {w : RowStore.Write} (hw : link.respond? chip host issue = some w) :
    w.row.Signed chip.dataWidth := by
  unfold respond? at hw
  split at hw
  · obtain rfl := Option.some.inj hw
    exact hhost.read _
  · obtain rfl := Option.some.inj hw
    exact signed_jumpRow h _
  · cases hw

/-- The response register, with whatever stands on it when it is not driven. -/
theorem signed_response (h : chip.Valid) {link : HostLink} (hlink : link.response.value.row.Signed chip.dataWidth)
    {host : RowStore} (hhost : host.Signed chip.dataWidth) (issue : Option Command) (pad : RowStore) :
    (link.step chip issue pad host).1.response.value.row.Signed chip.dataWidth := by
  dsimp only [step]
  cases hrespond : link.respond? chip host issue with
  | none => exact hlink
  | some w => exact signed_respond h link hhost issue hrespond

end HostLink

/-! ## Rows on their way to the array -/

/-- A row that is pushed comes from the scratchpad. -/
theorem RowSource.signed_row {bits : Nat} (s : RowSource) (issue : Option Multiplication) {pad : RowStore}
    (hpad : pad.Signed bits) {row : MatrixRow} (hrow : (s.step issue pad).2 = some row) : row.data.Signed bits := by
  rw [row_step] at hrow
  obtain ⟨j, -, hrow⟩ := Option.bind_eq_some_iff.1 hrow
  split at hrow
  · cases hrow
  · obtain rfl := Option.some.inj hrow
    exact hpad.read _

namespace SkewLines

/-- Every element in a register is a signed number of `bits` bits. -/
def Signed (bits : Nat) (s : SkewLines) : Prop := ∀ line ∈ s.lanes, ∀ lane ∈ line.regs, Word.Signed bits lane.data

variable {bits : Nat} {s : SkewLines} {row? : Option MatrixRow}

theorem signed_idle (bits size : Nat) : (idle size).Signed bits := by
  intro line hline
  obtain ⟨r, -, rfl⟩ := List.mem_map.1 hline
  apply DelayLine.forall_idle
  exact Word.signed_zero bits

theorem signed_clear (bits : Nat) (s : SkewLines) : s.clear.Signed bits := by
  intro line hline
  obtain ⟨line, -, rfl⟩ := List.mem_map.1 hline
  apply DelayLine.forall_idle
  exact Word.signed_zero bits

theorem signed_entering (hrow : ∀ row, row? = some row → row.data.Signed bits) (r : Nat) :
    Word.Signed bits (entering row? r).data := by
  cases row? with
  | none => exact Word.signed_zero bits
  | some row => exact (hrow row rfl).getD r

theorem Signed.step (h : s.Signed bits) (hrow : ∀ row, row? = some row → row.data.Signed bits) :
    (s.step row?).1.Signed bits := by
  intro line hline
  obtain ⟨r, hr, rfl⟩ := List.mem_mapIdx.1 hline
  apply DelayLine.forall_shift
  · exact h _ (List.getElem_mem hr)
  · exact signed_entering hrow r

theorem Signed.lanes_step (h : s.Signed bits) (hrow : ∀ row, row? = some row → row.data.Signed bits) :
    ∀ lane ∈ (s.step row?).2.lanes, Word.Signed bits lane.data := by
  intro lane hlane
  obtain ⟨r, hr, rfl⟩ := List.mem_mapIdx.1 hlane
  apply DelayLine.of_output (h _ (List.getElem_mem hr))
  exact signed_entering hrow r

end SkewLines

/-! ## The array -/

/-- Both weights, the element and the feed have the data width, the sum that of the accumulators. -/
structure Cell.Signed (chip : Chip) (cell : Cell) : Prop where
  current : Word.Signed chip.dataWidth cell.current
  staged : Word.Signed chip.dataWidth cell.staged
  left : Word.Signed chip.dataWidth cell.left.data
  feed : Word.Signed chip.dataWidth cell.feed.weight
  sum : Word.Signed chip.accWidth cell.sum

theorem Cell.signed_default (chip : Chip) : Signed chip {} := by
  constructor
  all_goals exact Word.signed_zero _

theorem Cell.Signed.step (h : chip.Valid) {cell : Cell} (hcell : cell.Signed chip) {left : Lane} {feed : Feed}
    (hleft : Word.Signed chip.dataWidth left.data) (hfeed : Word.Signed chip.dataWidth feed.weight) (above : Word) :
    (cell.step chip.size chip.accWidth left above feed).Signed chip := by
  have hstaged : Word.Signed chip.dataWidth (if left.valid && left.switch then cell.current else cell.staged) := by
    split
    · exact hcell.current
    · exact hcell.staged
  constructor
  · dsimp only [Cell.step]
    split
    · exact hcell.staged
    · exact hcell.current
  · dsimp only [Cell.step]
    split
    · exact hfeed
    · exact hstaged
  · exact hleft
  · exact hfeed
  · exact h.signed_acc _

namespace Mesh

structure Signed (chip : Chip) (mesh : Mesh) : Prop where
  cells : ∀ row ∈ mesh.cells, ∀ cell ∈ row, cell.Signed chip
  top : ∀ line ∈ mesh.top, ∀ feed ∈ line.regs, Word.Signed chip.dataWidth feed.weight

variable {mesh : Mesh} {lanes : List Lane} {front? : Option Tile}

theorem signed_idle (chip : Chip) (size : Nat) : (idle size).Signed chip := by
  constructor
  · intro row hrow cell hcell
    rw [List.eq_of_mem_replicate hrow] at hcell
    rw [List.eq_of_mem_replicate hcell]
    exact Cell.signed_default chip
  · intro line hline
    obtain ⟨c, -, rfl⟩ := List.mem_map.1 hline
    apply DelayLine.forall_idle
    exact Word.signed_zero chip.dataWidth

theorem signed_clear (chip : Chip) (mesh : Mesh) : mesh.clear.Signed chip := by
  constructor
  · intro row hrow cell hcell
    obtain ⟨row, -, rfl⟩ := List.mem_map.1 hrow
    obtain ⟨cell, -, rfl⟩ := List.mem_map.1 hcell
    exact Cell.signed_default chip
  · intro line hline
    obtain ⟨line, -, rfl⟩ := List.mem_map.1 hline
    apply DelayLine.forall_idle
    exact Word.signed_zero chip.dataWidth

/-- Outside the array an idle cell is read. -/
theorem Signed.cell (hmesh : mesh.Signed chip) (row column : Nat) : (mesh.cell row column).Signed chip := by
  rw [Mesh.cell, List.getD_eq_getElem?_getD, List.getD_eq_getElem?_getD]
  cases hrow : mesh.cells[row]? with
  | none => simpa using Cell.signed_default chip
  | some cells =>
    rw [Option.getD_some]
    cases hcell : cells[column]? with
    | none => exact Cell.signed_default chip
    | some cell => exact hmesh.cells cells (List.mem_of_getElem? hrow) cell (List.mem_of_getElem? hcell)

theorem signed_broadcast {bits : Nat} (mesh : Mesh) (hfront : ∀ t, front? = some t → Row.Signed bits t.cells)
    (size c : Nat) : Word.Signed bits (mesh.broadcast size front? c).weight := by
  unfold broadcast
  split
  · apply Row.Signed.getD
    apply Row.Signed.take
    apply Row.Signed.drop
    exact hfront _ rfl
  · exact Word.signed_zero bits

/-- The weight that reaches the top of column `c`. -/
theorem Signed.arriving (hmesh : mesh.Signed chip) (hfront : ∀ t, front? = some t → Row.Signed chip.dataWidth t.cells)
    (c : Nat) : Word.Signed chip.dataWidth
      ((mesh.top.getD c ⟨[]⟩).output (mesh.broadcast chip.size front? c)).weight := by
  have hin := mesh.signed_broadcast hfront chip.size c
  rw [List.getD_eq_getElem?_getD]
  cases hline : mesh.top[c]? with
  | none => exact hin
  | some line =>
    apply DelayLine.of_output (P := fun feed : Feed => Word.Signed chip.dataWidth feed.weight) _ hin
    exact hmesh.top line (List.mem_of_getElem? hline)

theorem Signed.step (h : chip.Valid) (hmesh : mesh.Signed chip)
    (hlanes : ∀ lane ∈ lanes, Word.Signed chip.dataWidth lane.data)
    (hfront : ∀ t, front? = some t → Row.Signed chip.dataWidth t.cells) :
    (mesh.step chip lanes front?).1.Signed chip := by
  constructor
  · intro row hrow cell hcell
    obtain ⟨r, -, rfl⟩ := List.mem_map.1 hrow
    obtain ⟨c, -, rfl⟩ := List.mem_map.1 hcell
    apply Cell.Signed.step h (hmesh.cell r c)
    · split
      · rw [List.getD_eq_getElem?_getD]
        cases hlane : lanes[r]? with
        | none => exact Word.signed_zero chip.dataWidth
        | some lane => exact hlanes lane (List.mem_of_getElem? hlane)
      · exact (hmesh.cell r (c - 1)).left
    · split
      · exact hmesh.arriving hfront c
      · exact (hmesh.cell (r - 1) c).feed
  · intro line hline
    obtain ⟨c, hc, rfl⟩ := List.mem_mapIdx.1 hline
    apply DelayLine.forall_shift
    · exact hmesh.top _ (List.getElem_mem hc)
    · exact mesh.signed_broadcast hfront chip.size c

theorem Signed.sums (hmesh : mesh.Signed chip) (lanes : List Lane) (front? : Option Tile) :
    (mesh.step chip lanes front?).2.sums.Signed chip.accWidth := by
  intro v hv
  obtain ⟨c, -, rfl⟩ := List.mem_map.1 hv
  exact (hmesh.cell (chip.size - 1) c).sum

end Mesh

/-! ## Weight tiles on their way to the array -/

theorem TileReader.signed_burst {bits : Nat} (r : TileReader) (request : Option UInt64) {store : TileStore}
    (hstore : store.Signed bits) {burst : Row} (hb : (r.step chip request store).2 = some burst) :
    burst.Signed bits := by
  replace hb : ((r.job.map (Job.step chip store)).getD (none, none)).2 = some burst := hb
  cases hjob : r.job with
  | none => rw [hjob] at hb; cases hb
  | some j =>
    rw [hjob, Option.map_some, Option.getD_some, Job.step] at hb
    split at hb
    · cases hb
    · obtain rfl := Option.some.inj hb
      apply Row.Signed.take
      apply Row.Signed.drop
      exact hstore.read _

namespace TileQueue

structure Signed (bits : Nat) (q : TileQueue) : Prop where
  fill : q.fill.Signed bits
  tiles : ∀ t ∈ q.tiles, Row.Signed bits t.cells

variable {bits : Nat} {q : TileQueue} {burst? : Option Row}

theorem signed_empty (bits size : Nat) : (empty size).Signed bits := by
  constructor
  · exact Row.signed_replicate bits _
  · intro t ht
    cases ht

theorem signed_clear (bits : Nat) (q : TileQueue) : q.clear.Signed bits := by
  constructor
  · exact Row.signed_replicate bits _
  · intro t ht
    cases ht

/-- Behind what slot 1 holds stand elements of the burst, then old elements. -/
theorem signed_append {fill burst : Row} (hfill : fill.Signed bits) (hburst : burst.Signed bits) (size filled : Nat) :
    (append size fill filled burst).Signed bits := by
  apply Row.Signed.append
  · apply Row.Signed.append
    · exact hfill.take _
    · exact hburst.take _
  · exact hfill.drop _

theorem Signed.step (hq : q.Signed bits) (hburst : ∀ b, burst? = some b → b.Signed bits) (size : Nat)
    (advance : Bool) : (q.step size burst? advance).1.Signed bits := by
  constructor
  · obtain ⟨fill, filled, burst, heq, -, hold, hnew⟩ := fill_step size q burst? advance
    rw [heq]
    apply signed_append
    · rcases hold with ⟨rfl, -⟩ | ⟨rfl, -⟩
      · exact hq.fill
      · exact Row.signed_replicate bits _
    · rcases hnew with rfl | hnew
      · exact Row.signed_nil bits
      · exact hburst burst hnew
  · intro t ht
    rcases mem_tiles_step ht with ht | rfl
    · exact hq.tiles t ht
    · exact hq.fill.fit _

end TileQueue

/-! ## The accumulators -/

/-- A write is a sum of the array as it stands, or one that has been cut. -/
theorem ControlChain.signed_writes (h : chip.Valid) (chain : ControlChain) (control : Wire AccControl) {sums : Row}
    (hsums : sums.Signed chip.accWidth) (store : AccStore) :
    ∀ w ∈ (chain.step chip.accWidth control sums store).2.writes, Word.Signed chip.accWidth w.value := by
  intro w hw
  obtain ⟨c, sum, k, hsum, -, rfl⟩ := (mem_writes chain chip.accWidth control sums store).1 hw
  dsimp only [write]
  split
  · exact hsums sum (List.mem_of_getElem? hsum)
  · exact h.signed_acc _

end Systolic
