import Systolic.Proofs.Checked.Storage
import Systolic.Proofs.Machine.Shape
import Systolic.Proofs.Transfer.Link

/-!
# Partial operations of the units

Each unit's cycle with every index, slice, division, unsigned subtraction and shift checked. With sound parameters and
memories of the right shape no unit traps, whatever its job, and each does what its cycle says (`Activator.tryStep_eq`,
`Sequencer.tryStep_eq`, `HostLink.tryStep_eq`, `RowSource.tryStep_eq`, `SkewLines.tryStep_eq`, `TileReader.tryStep_eq`,
`ControlChain.tryStep_eq`).
-/

namespace Systolic

open Checked

/-! ## Parameters -/

namespace Chip

variable {chip : Chip}

/-- The first flaw of a chip; the remainder comes after the check of the data width. -/
def tryFlaw? (c : Chip) : Checked (Option Flaw) := do
  if c.size < 4 then
    return some (.size c.size)
  if c.dataWidth < 4 ∨ 32 < c.dataWidth then
    return some (.dataWidth c.dataWidth)
  if c.accWidth < c.dataWidth ∨ 63 < c.accWidth then
    return some (.accWidth c.dataWidth c.accWidth)
  if c.padRows = 0 then
    return some (.empty "ub_rows")
  if c.accRows = 0 then
    return some (.empty "acc_rows")
  if c.hostRows = 0 then
    return some (.empty "host_rows")
  if c.tiles = 0 then
    return some (.empty "weight_tiles")
  if c.burstBytes * 8 = 0 then
    return some (.burst c.burstBytes c.dataWidth)
  let rest ← mod (c.burstBytes * 8) c.dataWidth
  if rest ≠ 0 then
    return some (.burst c.burstBytes c.dataWidth)
  if c.layout.opcode = 0 ∨ c.layout.flags = 0 then
    return some .noOpcodeOrFlags
  if c.layout.widths.any (fun w => w = 0 ∨ 8 < w) then
    return some (.fieldWidth c.layout)
  return none

def tryBurstElems (chip : Chip) : Checked Nat := div (chip.burstBytes * 8) chip.dataWidth

def tryBurstsPerTile (chip : Chip) : Checked Nat := do
  let elems ← chip.tryBurstElems
  divCeil (chip.size * chip.size) elems

def tryWeightCycles (chip : Chip) : Checked UInt64 := do
  let bursts ← chip.tryBurstsPerTile
  return .ofNat (bursts + chip.latency + chip.size + queueDepth)

theorem tryFlaw?_eq (c : Chip) : c.tryFlaw? = .ok c.flaw? := by
  unfold tryFlaw? flaw?
  apply ite_ok
  intro _
  apply ite_ok
  intro hwidth
  iterate 5
    apply ite_ok
    intro _
  have hmod : mod (c.burstBytes * 8) c.dataWidth = .ok (c.burstBytes * 8 % c.dataWidth) := mod_eq (by omega) _
  rw [hmod, ok_bind]
  by_cases hburst : c.burstBytes * 8 = 0
  · simp [hburst]
  · simp only [hburst, if_false, false_or]
    apply ite_ok
    intro _
    apply ite_ok
    intro _
    apply ite_ok
    intro _
    rfl

theorem Valid.tryBurstElems (h : chip.Valid) : chip.tryBurstElems = .ok chip.burstElems := by
  apply div_eq
  have := h.dataWidth
  omega

theorem Valid.tryBurstsPerTile (h : chip.Valid) : chip.tryBurstsPerTile = .ok chip.burstsPerTile := by
  simp only [Chip.tryBurstsPerTile, h.tryBurstElems, ok_bind, divCeil_eq h.burstElems_pos, burstsPerTile]

theorem Valid.tryWeightCycles (h : chip.Valid) : chip.tryWeightCycles = .ok chip.weightCycles := by
  simp only [Chip.tryWeightCycles, h.tryBurstsPerTile, ok_bind, pure_eq_ok, weightCycles]

theorem Valid.tryWrap_data (h : chip.Valid) (v : Word) :
    Word.tryWrap chip.dataWidth v = .ok (Word.wrap chip.dataWidth v) := by
  have := h.dataWidth
  apply Word.tryWrap_eq
  · omega
  · omega

theorem Valid.tryWrap_acc (h : chip.Valid) (v : Word) :
    Word.tryWrap chip.accWidth v = .ok (Word.wrap chip.accWidth v) := by
  have := h.dataWidth
  have := h.accWidth
  apply Word.tryWrap_eq
  · omega
  · omega

end Chip

/-! ## Registers in series -/

namespace DelayLine

variable {α : Type}

def tryShift (line : DelayLine α) (input : α) : Checked (DelayLine α) := do
  if line.regs.isEmpty then
    return ⟨[]⟩
  let last ← sub line.regs.length 1
  let kept ← slice line.regs 0 last
  return ⟨input :: kept⟩

theorem tryShift_eq (line : DelayLine α) (input : α) : line.tryShift input = .ok (line.shift input) := by
  obtain ⟨regs⟩ := line
  cases regs with
  | nil => rfl
  | cons a regs =>
    have hsub : sub (a :: regs).length 1 = .ok regs.length := sub_eq (Nat.succ_le_succ (Nat.zero_le _))
    have hslice : slice (a :: regs) 0 regs.length = .ok ((a :: regs).take regs.length) :=
      slice_eq (Nat.zero_le _) (Nat.le_succ _)
    simp only [tryShift, hsub, hslice, ok_bind, pure_eq_ok, shift, List.dropLast_eq_take]
    rfl

end DelayLine

/-! ## The activation unit -/

/-- The sigmoid looks a small word up and saturates beyond its table. -/
def Activation.tryApply (accWidth : Nat) : Activation → Word → Checked Word
  | identity, v => return v
  | relu, v => return if v < 0 then 0 else v
  | sigmoid, v => do
    let word ← Word.tryLow accWidth v
    if word >>> 3 != 0 then
      return 255
    index sigmoidTable[word.toNat]?

theorem Activation.tryApply_eq (accWidth : Nat) (function : Activation) (v : Word) :
    function.tryApply accWidth v = .ok (function.apply accWidth v) := by
  cases function with
  | identity => rfl
  | relu => rfl
  | sigmoid =>
    simp only [tryApply, Word.tryLow_eq, ok_bind, apply]
    generalize Word.low accWidth v = word
    have hshift : (word >>> 3).toNat = word.toNat / 8 := by simp [Nat.shiftRight_eq_div_pow]
    have hlength : sigmoidTable.length = 8 := rfl
    by_cases hword : word.toNat < 8
    · have hzero : word >>> 3 = 0 := by
        rw [← UInt64.toNat_inj, hshift]
        exact Nat.div_eq_of_lt hword
      simp only [hzero, bne_self_eq_false, Bool.false_eq_true, if_false]
      apply index_getD
      rwa [hlength]
    · have hne : word >>> 3 ≠ 0 := by
        rw [Ne, ← UInt64.toNat_inj, hshift, UInt64.toNat_zero]
        omega
      simp only [bne_iff_ne, ne_eq, hne, not_false_eq_true, if_true, pure_eq_ok]
      rw [List.getD_eq_getElem?_getD, List.getElem?_eq_none (by omega), Option.getD_none]

namespace Outcome

def tryDecode (chip : Chip) (function : Activation) (first : Bool) (row : Row) : Checked Outcome := do
  let n := row.length
  let last ← sub n 1
  let tag ← index row[last]?
  match Tag.ofCode? tag, first with
  | some .branch, true =>
    let before ← sub n 2
    let condition ← index row[before]?
    let taken := condition != 0
    let offset ← if taken then index row[0]? else index row[1]?
    return .branch taken (offset + 1)
  | some .jump, true =>
    let target ← index row[1]?
    let target ← Word.tryLow chip.dataWidth target
    return .jump target
  | some .equality, _ =>
    let out ← row.mapM (Word.tryWrap chip.dataWidth)
    let head ← index row[0]?
    let out ← put out 0 (ofBool (head == 0))
    let out ← put out 1 0
    let out ← put out last 0
    return .equality out
  | some .lessThan, _ =>
    let out ← row.mapM (Word.tryWrap chip.dataWidth)
    let head ← index row[0]?
    let out ← put out 0 (ofBool (head < 0))
    return .lessThan out
  | _, _ =>
    let out ← row.mapM fun v => do
      let v ← function.tryApply chip.accWidth v
      Word.tryWrap chip.dataWidth v
    return .activated out

/-- A row that is as wide as the array can be decoded. -/
theorem tryDecode_eq {chip : Chip} (h : chip.Valid) (function : Activation) (first : Bool) {row : Row}
    (hrow : 4 ≤ row.length) : tryDecode chip function first row = .ok (decode chip function first row) := by
  -- Four elements suffice: the tag and the condition at the end, the two offsets in front.
  have helement : ∀ i < row.length, index row[i]? = .ok (row.getD i 0) := by
    intro i hi
    exact index_getD hi 0
  have hwrap : row.mapM (Word.tryWrap chip.dataWidth) = .ok (row.wrap chip.dataWidth) := by
    apply mapM_ok
    intro v _
    exact h.tryWrap_data v
  have happly : (row.mapM fun v => do
      let v ← function.tryApply chip.accWidth v
      Word.tryWrap chip.dataWidth v) = .ok (Row.wrap chip.dataWidth (row.map (function.apply chip.accWidth))) := by
    rw [Row.wrap, List.map_map]
    apply mapM_ok
    intro v _
    rw [Activation.tryApply_eq, ok_bind, h.tryWrap_data]
    rfl
  have hlast : sub row.length 1 = .ok (row.length - 1) := sub_eq (by omega)
  have hbefore : sub row.length 2 = .ok (row.length - 2) := sub_eq (by omega)
  have hput : ∀ (out : Row) (i : Nat) (v : Word), out.length = row.length → i < row.length →
      put out i v = .ok (out.set i v) := by
    intro out i v hout hi
    exact put_eq (by omega) v
  have hwidth : (row.wrap chip.dataWidth).length = row.length := List.length_map _
  simp only [tryDecode, decode, hlast, hbefore, helement _ (show row.length - 1 < row.length by omega),
    helement _ (show row.length - 2 < row.length by omega), helement 0 (by omega), helement 1 (by omega), hwrap, happly,
    ok_bind, pure_eq_ok, Word.tryLow_eq]
  generalize Tag.ofCode? (row.getD (row.length - 1) 0) = tag
  cases tag with
  | none => rfl
  | some tag =>
    cases tag with
    | branch =>
      cases first with
      | true => cases row.getD (row.length - 2) 0 != 0 <;> rfl
      | false => rfl
    | jump => cases first <;> rfl
    | equality =>
      dsimp only
      rw [hput _ 0 _ hwidth (by omega), ok_bind, hput _ 1 _ (by simpa using hwidth) (by omega), ok_bind,
        hput _ (row.length - 1) _ (by simpa using hwidth) (by omega)]
      rfl
    | lessThan =>
      dsimp only
      rw [hput _ 0 _ hwidth (by omega)]
      rfl

end Outcome

namespace Activator

def Job.tryNext? (j : Job) : Checked (Option Job) := do
  let left? ← oneLess? j.remaining
  return left?.map fun left => ⟨j.accAddr + 1, j.padAddr + 1, left, j.function, j.pc, false⟩

def tryStep (chip : Chip) (a : Activator) (issue : Option ActivationRun) (bank : Bank) :
    Checked (Activator × Output) := do
  match (issue.map Job.ofCommand).or a.job with
  | none => return ({}, {})
  | some j =>
    if j.remaining = 0 then
      return ({}, {})
    let row ← bank.tryReadRow j.accAddr
    let outcome ← Outcome.tryDecode chip j.function j.first row
    match outcome.redirect? j.pc with
    | some target => return ({}, { redirect := some target, resolved := true })
    | none =>
      let next? ← j.tryNext?
      return (⟨next?⟩, { write := outcome.writeback?.map (⟨j.padAddr, ·⟩) })

theorem Job.tryNext?_eq (j : Job) : j.tryNext? = .ok j.next? := by
  simp only [tryNext?, oneLess?_eq, ok_bind, pure_eq_ok, next?]
  split <;> rfl

theorem tryStep_eq {chip : Chip} (h : chip.Valid) (a : Activator) (issue : Option ActivationRun) {bank : Bank}
    {depth : Nat} (hbank : bank.Fits chip.size depth) :
    a.tryStep chip issue bank = .ok (a.step chip issue bank.store) := by
  have hsize := h.size
  unfold tryStep step
  cases (issue.map Job.ofCommand).or a.job with
  | none => rfl
  | some j =>
    have hrow : (bank.store.readRow j.accAddr).length = chip.size := by
      rw [hbank.readRow_store, List.length_map, hbank.count]
    dsimp only
    split
    · rfl
    · simp only [hbank.tryReadRow_eq, Outcome.tryDecode_eq h j.function j.first (hrow ▸ hsize), j.tryNext?_eq, ok_bind,
        Job.step]
      generalize Outcome.decode chip j.function j.first (bank.store.readRow j.accAddr) = outcome
      cases outcome.redirect? j.pc with
      | none => rfl
      | some target => rfl

end Activator

/-! ## Dispatch -/

namespace Sequencer

def tryIndirect (chip : Chip) (pad : RowStore) (pointer : UInt64) : Checked UInt64 := do
  let row ← pad.tryRead pointer
  let element ← index row[0]?
  Word.tryLow chip.dataWidth element

def tryTransfer (chip : Chip) (pad : RowStore) (i : Instruction) : Checked Transfer := do
  if i.has Instruction.switchBit then
    let padAddr ← tryIndirect chip pad i.padAddr
    return ⟨i.memAddr, padAddr, 1⟩
  return ⟨i.memAddr, i.padAddr, i.length⟩

def tryCommand? (chip : Chip) (pad : RowStore) (pc : UInt64) (i : Instruction) : Checked (Option Command) := do
  match i.opcode with
  | .nop | .sync | .halt => return none
  | .readHost =>
    if i.has Instruction.convertBit then
      return some (.placeJump i.memAddr i.padAddr)
    let t ← tryTransfer chip pad i
    return some (.readHost t)
  | .writeHost =>
    let t ← tryTransfer chip pad i
    return some (.writeHost t)
  | .readWeights => return some (.readWeights i.memAddr)
  | .multiply => return some (.multiply ⟨i.padAddr, i.memAddr, i.length, i.has Instruction.overwriteBit,
      i.has Instruction.switchBit⟩)
  | .activate => return some (.activate ⟨i.memAddr, i.padAddr, i.length, i.activation, pc⟩)

/-- Only the duration of a weight read divides. -/
def tryCharge (chip : Chip) (busy : Busy) : Command → Checked Busy
  | .readWeights _ => do
    let cycles ← chip.tryWeightCycles
    return { busy with weights := cycles }
  | command => return charge chip busy command

def tryDispatch (chip : Chip) (pad : RowStore) (s : Sequencer) (i : Instruction) (waiting : Sequencer) :
    Checked Sequencer := do
  let issue ← tryCommand? chip pad s.pc i
  let busy ← match issue with
    | some command => tryCharge chip waiting.busy command
    | none => pure waiting.busy
  return {
    pc := if i.opcode = .halt then s.pc else s.pc + 1
    busy
    cooldown := if i.opcode = .multiply ∧ i.has Instruction.switchBit then chip.switchCycles else waiting.cooldown
    halted := i.opcode = .halt
    issue }

def tryStep (chip : Chip) (s : Sequencer) (input : Input) : Checked (Sequencer × Output) := do
  let waiting := s.countDown input.resolved
  let i := input.program.fetch s.pc
  let (next, output) ←
    if s.halted then pure (waiting, ({} : Output))
    else if s.ready i then do
      let next ← tryDispatch chip input.pad s i waiting
      pure (next, { dispatched := some i })
    else pure (waiting, { stalled := true })
  return ({ next with pc := input.redirect.getD next.pc }, output)

variable {chip : Chip} (h : chip.Valid) {pad : RowStore} {depth : Nat} (hpad : pad.Fits depth chip.size) (hd : 0 < depth)
include h hpad hd

theorem tryIndirect_eq (pointer : UInt64) : tryIndirect chip pad pointer = .ok (indirect chip pad pointer) := by
  have hsize := h.size
  have hpos : 0 < pad.depth := hpad.depth_eq ▸ hd
  have hlength : 0 < (pad.read pointer).length := by
    rw [hpad.length_read hd]
    omega
  simp only [tryIndirect, RowStore.tryRead_eq hpos, index_getD hlength 0, Word.tryLow_eq, ok_bind, indirect]

theorem tryTransfer_eq (i : Instruction) : tryTransfer chip pad i = .ok (transfer chip pad i) := by
  unfold tryTransfer transfer
  split
  · rw [tryIndirect_eq h hpad hd]
    rfl
  · rfl

theorem tryCommand?_eq (pc : UInt64) (i : Instruction) : tryCommand? chip pad pc i = .ok (command? chip pad pc i) := by
  have htransfer := tryTransfer_eq h hpad hd i
  unfold tryCommand? command?
  cases i.opcode with
  | readHost =>
    dsimp only
    split
    · rfl
    · rw [htransfer]
      rfl
  | writeHost =>
    dsimp only
    rw [htransfer]
    rfl
  | _ => rfl

omit hpad hd in
theorem tryCharge_eq (busy : Busy) (command : Command) : tryCharge chip busy command = .ok (charge chip busy command) := by
  cases command with
  | readWeights tile =>
    rw [tryCharge, h.tryWeightCycles]
    rfl
  | _ => rfl

theorem tryDispatch_eq (s : Sequencer) (i : Instruction) (waiting : Sequencer) :
    tryDispatch chip pad s i waiting = .ok (dispatch chip pad s i waiting) := by
  unfold tryDispatch dispatch
  rw [tryCommand?_eq h hpad hd, ok_bind]
  cases command? chip pad s.pc i with
  | none => rfl
  | some command =>
    dsimp only
    rw [tryCharge_eq h]
    rfl

theorem tryStep_eq (s : Sequencer) {input : Input} (hinput : input.pad = pad) :
    s.tryStep chip input = .ok (s.step chip input) := by
  subst hinput
  unfold tryStep step
  dsimp only
  split
  · rfl
  · split
    · rw [tryDispatch_eq h hpad hd]
      rfl
    · rfl

end Sequencer

/-! ## The host link -/

namespace HostLink

def tryJumpRow (chip : Chip) (target : UInt64) : Checked Row := do
  let value ← Word.tryWrap chip.dataWidth target.toInt64
  let row ← put (List.replicate chip.size 0) 1 value
  let last ← sub chip.size 1
  put row last Tag.jump.code

def Job.tryNext? (j : Job) : Checked (Option Job) := do
  let left? ← oneLess? j.remaining
  return left?.map fun left => ⟨j.hostAddr + 1, j.padAddr + 1, left⟩

/-- The jump row that is asked for. -/
def tryPlaced? (chip : Chip) : Option Command → Checked (Option RowStore.Write)
  | some (.placeJump target padAddr) => do
    let row ← tryJumpRow chip target
    return some ⟨padAddr, row⟩
  | _ => return none

/-- The row that is read from the host, and the job after it. -/
def tryFetch (host : RowStore) : Option Job → Checked (Option RowStore.Write × Option Job)
  | some j => do
    let row ← host.tryRead j.hostAddr
    let next? ← j.tryNext?
    return (some ⟨j.padAddr, row⟩, next?)
  | none => return (none, none)

/-- The row that is sent to the host, and the job after it. -/
def trySend (pad : RowStore) : Option Job → Checked (Option RowStore.Write × Option Job)
  | some j => do
    let row ← pad.tryRead j.padAddr
    let next? ← j.tryNext?
    return (some ⟨j.hostAddr, row⟩, next?)
  | none => return (none, none)

def tryStep (chip : Chip) (link : HostLink) (issue : Option Command) (pad host : RowStore) :
    Checked (HostLink × Output) := do
  let placed? ← tryPlaced? chip issue
  let (fetched?, reading) ← tryFetch host (link.reading? issue)
  let (sent?, writing) ← trySend pad (link.writing? issue)
  return (
    { reading
      writing
      response := ((fetched?.or placed?).map .drive).getD link.response.clear
      ack := (sent?.map fun w => .drive w.addr).getD link.ack.clear },
    { padWrite := link.response.get?
      hostWrite := sent?
      acked := link.ack.get? })

theorem Job.tryNext?_eq (j : Job) : j.tryNext? = .ok j.next? := by
  simp only [tryNext?, oneLess?_eq, ok_bind, pure_eq_ok, next?]
  split <;> rfl

theorem tryJumpRow_eq {chip : Chip} (h : chip.Valid) (target : UInt64) :
    tryJumpRow chip target = .ok (jumpRow chip target) := by
  have hsize := h.size
  have hfit : List.replicate chip.size 0 = Row.fit chip.size [] := by simp [Row.fit]
  have hlast : sub chip.size 1 = .ok (chip.size - 1) := sub_eq (by omega)
  have hput : ∀ (row : Row) (i : Nat) (v : Word), row.length = chip.size → i < chip.size →
      put row i v = .ok (row.set i v) := by
    intro row i v hrow hi
    exact put_eq (by omega) v
  rw [tryJumpRow, h.tryWrap_data, ok_bind, hfit, hput _ 1 _ (Row.length_fit _ _) (by omega), ok_bind, hlast, ok_bind,
    hput _ (chip.size - 1) _ (by simp) (by omega)]
  rfl

theorem tryPlaced?_eq {chip : Chip} (h : chip.Valid) (issue : Option Command) :
    tryPlaced? chip issue = .ok (placed chip issue) := by
  cases issue with
  | none => rfl
  | some command =>
    cases command with
    | placeJump target padAddr =>
      rw [tryPlaced?, tryJumpRow_eq h]
      rfl
    | _ => rfl

theorem tryFetch_eq {host : RowStore} (h : 0 < host.depth) (j? : Option Job) : tryFetch host j? =
    .ok (j?.map fun j => ⟨j.padAddr, host.read j.hostAddr⟩, j?.bind (·.next?)) := by
  cases j? with
  | none => rfl
  | some j =>
    rw [tryFetch, RowStore.tryRead_eq h, ok_bind, j.tryNext?_eq]
    rfl

theorem trySend_eq {pad : RowStore} (h : 0 < pad.depth) (j? : Option Job) : trySend pad j? =
    .ok (j?.map fun j => ⟨j.hostAddr, pad.read j.padAddr⟩, j?.bind (·.next?)) := by
  cases j? with
  | none => rfl
  | some j =>
    rw [trySend, RowStore.tryRead_eq h, ok_bind, j.tryNext?_eq]
    rfl

theorem tryStep_eq {chip : Chip} (h : chip.Valid) (link : HostLink) (issue : Option Command) {pad host : RowStore}
    (hpad : 0 < pad.depth) (hhost : 0 < host.depth) :
    link.tryStep chip issue pad host = .ok (link.step chip issue pad host) := by
  have hrespond : ((link.reading? issue).map fun j => (⟨j.padAddr, host.read j.hostAddr⟩ : RowStore.Write)).or
      (placed chip issue) = link.respond? chip host issue := by
    cases hr : link.reading? issue with
    | none => rw [link.respond?_of_none hr, Option.map_none, Option.none_or]
    | some j => rw [link.respond?_of_some hr, Option.map_some, Option.some_or]
  simp only [tryStep, tryPlaced?_eq h, tryFetch_eq hhost, trySend_eq hpad, ok_bind, pure_eq_ok, hrespond, step,
    Option.map_map]
  rfl

end HostLink

/-! ## Rows on their way to the array -/

namespace RowSource

def Job.tryNext? (j : Job) : Checked (Option Job) := do
  let left? ← oneLess? j.remaining
  return left?.map fun left => ⟨j.padAddr + 1, j.accAddr + 1, left, j.overwrite, false⟩

def tryStep (s : RowSource) (issue : Option Multiplication) (pad : RowStore) :
    Checked (RowSource × Option MatrixRow) := do
  match (issue.map Job.ofCommand).or s.job with
  | none => return ({}, none)
  | some j =>
    if j.remaining = 0 then
      return ({}, none)
    let data ← pad.tryRead j.padAddr
    let next? ← j.tryNext?
    return (⟨next?⟩, some ⟨data, j.switch, ⟨j.accAddr, j.overwrite, j.remaining == 1⟩⟩)

theorem Job.tryNext?_eq (j : Job) : j.tryNext? = .ok j.next? := by
  simp only [tryNext?, oneLess?_eq, ok_bind, pure_eq_ok, next?]
  split <;> rfl

theorem tryStep_eq (s : RowSource) (issue : Option Multiplication) {pad : RowStore} (h : 0 < pad.depth) :
    s.tryStep issue pad = .ok (s.step issue pad) := by
  unfold tryStep step
  cases (issue.map Job.ofCommand).or s.job with
  | none => rfl
  | some j =>
    dsimp only
    split
    · rfl
    · rw [RowStore.tryRead_eq h, ok_bind, j.tryNext?_eq]
      rfl

end RowSource

namespace SkewLines

/-- An element of the row that a line has no element for is zero: only the shifts slice. -/
def tryStep (s : SkewLines) (row? : Option MatrixRow) : Checked (SkewLines × Output) := do
  let lanes ← s.lanes.zipIdx.mapM fun (line, r) => line.tryShift (entering row? r)
  let control ← s.control.tryShift (.ofOption (row?.map (·.control)))
  return (⟨lanes, control⟩, (s.step row?).2)

theorem tryStep_eq (s : SkewLines) (row? : Option MatrixRow) : s.tryStep row? = .ok (s.step row?) := by
  have hlanes : (s.lanes.zipIdx.mapM fun (line, r) => line.tryShift (entering row? r)) =
      .ok (s.lanes.mapIdx fun r line => line.shift (entering row? r)) := by
    rw [List.mapIdx_eq_zipIdx_map]
    apply mapM_ok
    intro a _
    exact DelayLine.tryShift_eq _ _
  rw [tryStep, hlanes, ok_bind, DelayLine.tryShift_eq]
  rfl

end SkewLines

/-! ## Weight bursts -/

namespace TileReader

def tryBurst (chip : Chip) (tile : Row) (k : Nat) : Checked Row := do
  let elems ← chip.tryBurstElems
  let start := k * elems
  slice tile start (min (start + elems) tile.length)

def Job.tryStep (chip : Chip) (store : TileStore) (j : Job) : Checked (Option Job × Option Row) := do
  if 0 < j.wait then
    let wait ← sub j.wait 1
    return (some { j with wait }, none)
  let tile ← store.tryRead j.tile
  let burst ← tryBurst chip tile j.next
  let bursts ← chip.tryBurstsPerTile
  return (if j.next + 1 < bursts then some { j with next := j.next + 1 } else none, some burst)

def tryStep (chip : Chip) (r : TileReader) (request : Option UInt64) (store : TileStore) :
    Checked (TileReader × Option Row) := do
  let (job, burst) ← match r.job with
    | some j => j.tryStep chip store
    | none => pure (none, none)
  return (⟨(request.map fun tile => ⟨tile, chip.latency, 0⟩).or job⟩, burst)

variable {chip : Chip} (h : chip.Valid)
include h

/-- A burst of a tile starts within the tile. -/
theorem tryBurst_eq {tile : Row} (htile : tile.length = chip.size * chip.size) {k : Nat} (hk : k < chip.burstsPerTile) :
    tryBurst chip tile k = .ok (burst chip tile k) := by
  have hstart : k * chip.burstElems < tile.length := by
    rw [htile]
    exact (Supply.lt_burstsPerTile_iff h.burstElems_pos).1 hk
  rw [tryBurst, h.tryBurstElems, ok_bind, slice_eq (by omega) (by omega), burst]
  apply congrArg Except.ok
  rw [List.take_eq_take_iff, List.length_drop]
  omega

theorem Job.tryStep_eq {store : TileStore} (hstore : store.Fits chip.size) {j : Job} (hj : j.next < chip.burstsPerTile) :
    j.tryStep chip store = .ok (j.step chip store) := by
  unfold tryStep step
  split
  · rw [sub_eq (by omega)]
    rfl
  · simp only [TileStore.tryRead_eq hstore, tryBurst_eq h (hstore.length_read j.tile) hj, h.tryBurstsPerTile, ok_bind,
      pure_eq_ok]

theorem tryStep_eq {r : TileReader} (hr : ∀ j, r.job = some j → j.next < chip.burstsPerTile) (request : Option UInt64)
    {store : TileStore} (hstore : store.Fits chip.size) :
    r.tryStep chip request store = .ok (r.step chip request store) := by
  unfold tryStep step
  cases hjob : r.job with
  | none => rfl
  | some j =>
    dsimp only
    rw [j.tryStep_eq h hstore (hr j hjob)]
    rfl

end TileReader

/-! ## Sums on their way to the accumulators -/

namespace ControlChain

/-- The control that column `c` looks at. -/
def tryControl (chain : ControlChain) (control : Wire AccControl) (c : Nat) : Checked (Wire AccControl) := do
  if c = 0 then
    return control
  let hop ← sub c 1
  index chain.hops[hop]?

/-- The write of column `c`, and whether it is the last one of a multiplication. -/
def tryColumn (accWidth : Nat) (chain : ControlChain) (control : Wire AccControl) (sums : Row) (bank : Bank) (c : Nat) :
    Checked (Option (AccStore.Write × Bool)) := do
  let wire ← chain.tryControl control c
  match wire.get? with
  | none => return none
  | some ctl =>
    let sum ← index sums[c]?
    let value ←
      if ctl.overwrite then pure sum
      else do
        let old ← bank.tryRead c ctl.accAddr
        Word.tryWrap accWidth (old + sum)
    let last ← sub sums.length 1
    return some (⟨c, ctl.accAddr, value⟩, c == last && ctl.last)

def tryStep (accWidth : Nat) (chain : ControlChain) (control : Wire AccControl) (sums : Row) (bank : Bank) :
    Checked (ControlChain × Output) := do
  let outs ← (List.range sums.length).mapM (chain.tryColumn accWidth control sums bank)
  let hops ← (DelayLine.mk chain.hops).tryShift control
  return (⟨hops.regs⟩,
    { writes := outs.filterMap (·.map (·.1))
      done := outs.any (·.any (·.2)) })

theorem tryControl_eq (chain : ControlChain) (control : Wire AccControl) {c : Nat} (hc : c ≤ chain.hops.length) :
    ∃ wire, chain.tryControl control c = .ok wire ∧ chain.at? control c = wire.get? := by
  cases c with
  | zero => exact ⟨control, rfl, rfl⟩
  | succ c =>
    refine ⟨chain.hops[c], ?_, ?_⟩
    · rw [tryControl, if_neg (Nat.succ_ne_zero c), sub_eq (by omega)]
      exact index_getElem hc
    · rw [at?, List.getElem?_cons_succ, List.getElem?_eq_getElem hc]
      rfl

/-- What column `c` puts out in a cycle. -/
def columnOutput (accWidth : Nat) (chain : ControlChain) (control : Wire AccControl) (sums : Row) (store : AccStore)
    (c : Nat) : Option (AccStore.Write × Bool) :=
  (chain.at? control c).map fun ctl =>
    (write accWidth store c (sums.getD c 0) ctl, c == sums.length - 1 && ctl.last)

/-- The columns put out the writes of the cycle. -/
theorem writes_columns (accWidth : Nat) (chain : ControlChain) (control : Wire AccControl) (sums : Row)
    (store : AccStore) :
    ((List.range sums.length).map (chain.columnOutput accWidth control sums store)).filterMap (·.map (·.1)) =
      (chain.step accWidth control sums store).2.writes := by
  rw [writes_step, List.filterMap_map]
  apply List.filterMap_congr
  intro c _
  exact Option.map_map _ _ _

/-- Every write goes to a column of the array. -/
theorem column_lt {accWidth : Nat} {chain : ControlChain} {control : Wire AccControl} {sums : Row} {store : AccStore}
    {w : AccStore.Write} (hw : w ∈ (chain.step accWidth control sums store).2.writes) : w.column < sums.length := by
  rw [← writes_columns, List.mem_filterMap] at hw
  obtain ⟨out?, hout, hw⟩ := hw
  obtain ⟨c, hc, rfl⟩ := List.mem_map.1 hout
  simp only [columnOutput, Option.map_map, Option.map_eq_some_iff] at hw
  obtain ⟨ctl, -, rfl⟩ := hw
  exact List.mem_range.1 hc

/-- A multiplication is done when the last column says so. -/
theorem done_columns (accWidth : Nat) (chain : ControlChain) (control : Wire AccControl) (sums : Row)
    (store : AccStore) :
    ((List.range sums.length).map (chain.columnOutput accWidth control sums store)).any (·.any (·.2)) =
      (chain.step accWidth control sums store).2.done := by
  rw [Bool.eq_iff_iff, step, List.any_map]
  simp only [List.any_eq_true, List.mem_range, Function.comp_apply, columnOutput, Option.any_map, Option.any_eq_true,
    Bool.and_eq_true, beq_iff_eq, decide_eq_true_eq]
  constructor
  · rintro ⟨c, hc, ctl, hctl, rfl, hlast⟩
    exact ⟨by omega, ctl, hctl, hlast⟩
  · rintro ⟨hpos, ctl, hctl, hlast⟩
    exact ⟨sums.length - 1, by omega, ctl, hctl, rfl, hlast⟩

variable {chip : Chip} (h : chip.Valid) {bank : Bank} {depth : Nat} (hbank : bank.Fits chip.size depth)
  {chain : ControlChain} (hchain : chain.hops.length = chip.size - 1) {sums : Row} (hsums : sums.length = chip.size)
include h hbank hchain hsums

theorem tryColumn_eq (control : Wire AccControl) {c : Nat} (hc : c < chip.size) :
    chain.tryColumn chip.accWidth control sums bank c =
      .ok (chain.columnOutput chip.accWidth control sums bank.store c) := by
  obtain ⟨wire, hwire, hat⟩ := chain.tryControl_eq control (c := c) (by omega)
  rw [tryColumn, columnOutput, hwire, hat, ok_bind]
  cases wire.get? with
  | none => rfl
  | some ctl =>
    have hsum : index sums[c]? = .ok (sums.getD c 0) := index_getD (by omega) 0
    have hlast : sub sums.length 1 = .ok (sums.length - 1) := sub_eq (by omega)
    simp only [hsum, hbank.tryRead_eq hc, h.tryWrap_acc, hlast, ok_bind, pure_eq_ok, Option.map_some, write]
    split <;> rfl

theorem tryStep_eq (control : Wire AccControl) :
    chain.tryStep chip.accWidth control sums bank = .ok (chain.step chip.accWidth control sums bank.store) := by
  have houts : (List.range sums.length).mapM (chain.tryColumn chip.accWidth control sums bank) =
      .ok ((List.range sums.length).map (chain.columnOutput chip.accWidth control sums bank.store)) := by
    apply mapM_ok
    intro c hc
    rw [List.mem_range, hsums] at hc
    exact tryColumn_eq h hbank hchain hsums control hc
  rw [tryStep, houts, ok_bind, DelayLine.tryShift_eq, ok_bind, writes_columns, done_columns]
  rfl

end ControlChain

end Systolic
