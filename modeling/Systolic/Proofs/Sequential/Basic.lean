import Mathlib.Tactic.ByContra
import Systolic.Machine.Basic
import Systolic.Proofs.Mesh.Sums

/-!
# One instruction at a time

The reference for synchronised programs (`Program.Synchronized`): a machine without a pipeline that carries out one
instruction after the other. Its weights are the tile in use and the tiles that have been read but not switched to. A
fifth waiting tile is the last one there is room for; a weight read beyond it and a switch without a waiting tile are
violations.
-/

namespace Systolic

/-- An instruction that gives a unit something to do. -/
def Opcode.works : Opcode → Bool
  | .readHost | .writeHost | .readWeights | .multiply | .activate => true
  | .nop | .sync | .halt => false

/-- Every instruction that gives a unit something to do is followed by a `SYNC`. -/
def Program.Synchronized (p : Program) : Prop :=
  ∀ pc, (p.fetch pc).opcode.works = true → (p.fetch (pc + 1)).opcode = .sync

/-- The blank memory past the end of a program need not be looked at. -/
theorem Program.synchronized_iff {p : Program} : p.Synchronized ↔ ∀ k < p.length,
    (p.fetch (.ofNat k)).opcode.works = true → (p.fetch (.ofNat k + 1)).opcode = .sync := by
  constructor
  · intro h k _
    exact h (.ofNat k)
  · intro h pc hw
    by_cases hlt : pc.toNat < p.length
    · have hk := h pc.toNat hlt
      rw [UInt64.ofNat_toNat] at hk
      exact hk hw
    · have hnop : p.fetch pc = .nop := by
        rw [fetch, List.getD_eq_getElem?_getD, List.getElem?_eq_none (Nat.le_of_not_lt hlt)]
        rfl
      rw [hnop] at hw
      cases hw

instance (p : Program) : Decidable p.Synchronized := decidable_of_iff _ Program.synchronized_iff.symm

structure Sequential where
  pc : UInt64
  pad : RowStore
  host : RowStore
  acc : AccStore
  /-- The tile in use. -/
  current : Tile
  /-- Tiles that have been read and not been switched to, the oldest first. -/
  waiting : List Tile
  deriving DecidableEq

namespace Sequential

/-- The state at power-on. -/
def start (chip : Chip) (m : Memories) : Sequential :=
  { pc := 0, pad := m.pad, host := m.host, acc := m.acc, current := .ofRow chip.size [], waiting := [] }

/-- The first `n` rows from row `source` of `src` on, copied one by one to `dst`, from row `target` on. -/
def copyRows (src : RowStore) (source target : UInt64) (dst : RowStore) : Nat → RowStore
  | 0 => dst
  | n + 1 => (copyRows src source target dst n).write (target + UInt64.ofNat n) (src.read (source + UInt64.ofNat n))

/-- The accumulator row at `addr` once the product of `x` and `tile` has replaced it, or has been added to it. -/
def multiplyRow (chip : Chip) (tile : Tile) (overwrite : Bool) (x : Row) (acc : AccStore) (addr : UInt64) : Row :=
  (List.range chip.size).map fun c =>
    if overwrite then tile.product chip.accWidth x c
    else Word.wrap chip.accWidth (acc.read c addr + tile.product chip.accWidth x c)

/-- The accumulators after the first `n` rows of a multiplication with `tile`. -/
def multiplyRows (chip : Chip) (pad : RowStore) (tile : Tile) (m : Multiplication) (acc : AccStore) : Nat → AccStore
  | 0 => acc
  | n + 1 =>
    let before := multiplyRows chip pad tile m acc n
    let addr := m.accAddr + UInt64.ofNat n
    before.writeRow addr (multiplyRow chip tile m.overwrite (pad.read (m.padAddr + UInt64.ofNat n)) before addr)

/-- What row `n` of an activation turns into. -/
def outcome (chip : Chip) (acc : AccStore) (a : ActivationRun) (n : Nat) : Outcome :=
  .decode chip a.function (n == 0) (acc.readRow (a.accAddr + UInt64.ofNat n))

/-- What row `n` of an activation writes. -/
def rowWrite (chip : Chip) (acc : AccStore) (a : ActivationRun) (n : Nat) : Option RowStore.Write :=
  (outcome chip acc a n).writeback?.map fun row => ⟨a.padAddr + UInt64.ofNat n, row⟩

/-- The scratchpad after the first `n` rows of an activation. -/
def activateRows (chip : Chip) (acc : AccStore) (a : ActivationRun) (pad : RowStore) : Nat → RowStore
  | 0 => pad
  | n + 1 => (activateRows chip acc a pad n).commit (rowWrite chip acc a n)

/-- What an instruction leads to. -/
inductive Result
  | next (s : Sequential)
  | halted
  | violation (h : Hazard)

variable (chip : Chip) (weights : TileStore) (s : Sequential)

/-- A multiplication with `tile`, which is in use from then on. -/
def multiply (m : Multiplication) (tile : Tile) (waiting : List Tile) : Sequential :=
  { s with
    pc := s.pc + 1
    acc := multiplyRows chip s.pad tile m s.acc m.length.toNat
    current := tile
    waiting }

/-- A command, carried out at once. -/
def execute : Command → Result
  | .readHost t =>
    .next { s with pc := s.pc + 1, pad := copyRows s.host t.hostAddr t.padAddr s.pad t.length.toNat }
  | .writeHost t =>
    .next { s with pc := s.pc + 1, host := copyRows s.pad t.padAddr t.hostAddr s.host t.length.toNat }
  | .placeJump target padAddr =>
    .next { s with pc := s.pc + 1, pad := s.pad.write padAddr (HostLink.jumpRow chip target) }
  | .readWeights tile =>
    if 4 < s.waiting.length then .violation .queueOverflow
    else .next { s with pc := s.pc + 1, waiting := s.waiting ++ [.ofRow chip.size (weights.read tile)] }
  | .multiply m =>
    if m.switch && m.length != 0 then
      match s.waiting with
      | [] => .violation .switchWithoutWeights
      | tile :: waiting => .next (s.multiply chip m tile waiting)
    else .next (s.multiply chip m s.current s.waiting)
  | .activate a =>
    match if a.length = 0 then none else (outcome chip s.acc a 0).redirect? a.pc with
    | some target => .next { s with pc := target }
    | none => .next { s with pc := s.pc + 1, pad := activateRows chip s.acc a s.pad a.length.toNat }

/-- One instruction. -/
def step (program : Program) : Result :=
  let i := program.fetch s.pc
  if i.opcode = .halt then .halted
  else
    match Sequencer.command? chip s.pad s.pc i with
    | none => .next { s with pc := s.pc + 1 }
    | some command => s.execute chip weights command

/-- What a program comes to within so many instructions: it halts in some state, or violates a condition of the queue. -/
def run (program : Program) : Nat → Sequential → Option (Sequential ⊕ Hazard)
  | 0, _ => none
  | n + 1, s =>
    match s.step chip weights program with
    | .next u => run program n u
    | .halted => some (.inl s)
    | .violation h => some (.inr h)

end Sequential

end Systolic
