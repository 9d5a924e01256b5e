import Systolic.Proofs.Sequential.Blocks
import Systolic.Proofs.Sequential.Overlap
import Systolic.Proofs.Sequential.Refinement

/-!
# Runs of blocked products

The program of a blocked product (`Program.blocked`) reads the tile of the next block while the rows of the one before are
still on their way. Block by block it comes to an idle cycle with one tile waiting (`Matches.blocks`). So it halts without
a hazard, with the sum of the blocks in its accumulator rows and everything else as it was (`blocked_product`).
-/

namespace Systolic

/-- The multiplication of a block, which brings in its tile. -/
def Block.multiply (b : Block) (acc length : UInt64) : Instruction :=
  (Instruction.multiply b.padAddr acc length).withSwitch

/-- The tile of a block, then its rows. -/
def Block.instructions (b : Block) (acc length : UInt64) : List Instruction :=
  [.readWeights b.tile, .sync, b.multiply acc length]

theorem Block.command?_multiply (chip : Chip) (pad : RowStore) (pc : UInt64) (b : Block) (acc length : UInt64) :
    Sequencer.command? chip pad pc (b.multiply acc length) = some (.multiply (b.multiplication acc length)) := by
  have hswitch : (b.multiply acc length).has Instruction.switchBit = true :=
    show ((0 ||| Instruction.switchBit) &&& Instruction.switchBit != 0) = true by decide
  have hadd : (b.multiply acc length).has Instruction.overwriteBit = false :=
    show ((0 ||| Instruction.switchBit) &&& Instruction.overwriteBit != 0) = false by decide
  rw [Course.command?_multiply rfl, hswitch, hadd]
  rfl

namespace Program

/-- One block after the other; each tile is read behind the multiplication of the block before. -/
def blocked (blocks : List Block) (acc length : UInt64) : Program :=
  ⟨blocks.flatMap (·.instructions acc length) ++ [.halt]⟩

variable {p : Program} {pc : UInt64} {i j : Instruction} {rest : List Instruction}

theorem fetch_of_drop (h : p.instructions.drop pc.toNat = i :: rest) : p.fetch pc = i := by
  have hget : (p.instructions.drop pc.toNat)[0]? = some i := by
    rw [h]
    rfl
  rw [List.getElem?_drop, Nat.add_zero] at hget
  rw [fetch, List.getD_eq_getElem?_getD, hget]
  rfl

/-- The next instruction stands at the next address. -/
theorem drop_succ (hlen : p.length ≤ 2 ^ 64) (h : p.instructions.drop pc.toNat = i :: j :: rest) :
    p.instructions.drop (pc + 1).toNat = j :: rest := by
  have hlength := congrArg List.length h
  rw [List.length_drop, List.length_cons, List.length_cons] at hlength
  have hpc : (pc + 1).toNat = pc.toNat + 1 := by
    have hone : (1 : UInt64).toNat = 1 := rfl
    rw [UInt64.toNat_add, hone, Nat.mod_eq_of_lt]
    unfold Program.length at hlen
    omega
  rw [hpc, ← List.drop_drop, h]
  rfl

end Program

namespace Course

variable {C : Course}

section Run

variable (hclosed : C.Closed)
include hclosed

/-- A `SYNC` in an idle cycle takes one cycle. -/
theorem Matches.sync {t : Nat} {s : Sequential} (h : C.Matches t s) (ho : (C.program.fetch s.pc).opcode = .sync) :
    C.Matches (t + 1) { s with pc := s.pc + 1 } := by
  have hc : C.command? s = none := by simp only [Course.command?, Sequencer.command?, ho]
  exact h.other hc rfl rfl fun _ _ => h.settled_of_none hclosed hc (by rw [ho]; decide)

variable (hlen : C.program.length ≤ 2 ^ 64) {acc length : UInt64}
include hlen

/-- **Block by block.** From the multiplication of a block on, with its tile waiting, the course comes to the halt, with
this block and the later ones added up. -/
theorem Matches.blocks (hlength : length ≠ 0) {blocks : List Block} {b : Block} {t : Nat} {s : Sequential}
    (h : C.Matches t s) (hdrop : C.program.instructions.drop s.pc.toNat =
      b.multiply acc length :: (blocks.flatMap (·.instructions acc length) ++ [.halt]))
    (hw : s.waiting = [(C.memories 0).tile C.chip b]) (hpad : s.pad = (C.memories 0).pad) :
    ∃ u v, C.Matches u v ∧ (C.program.fetch v.pc).opcode = .halt ∧ v.pad = s.pad ∧ v.host = s.host ∧
      v.acc = (C.memories 0).addBlocks C.chip acc length s.acc (b :: blocks) := by
  have hc : C.command? s = some (.multiply (b.multiplication acc length)) := by
    rw [Course.command?, Program.fetch_of_drop hdrop, Block.command?_multiply]
  have hsw : ((b.multiplication acc length).switch && (b.multiplication acc length).length != 0) = true := by
    simpa [Block.multiplication] using hlength
  induction blocks generalizing b t s with
  | nil =>
    have hhalt := Program.fetch_of_drop (Program.drop_succ hlen hdrop)
    have hnext := h.multiply_switch hclosed (by rw [hhalt]; rfl) hc hsw hw
    refine ⟨_, _, hnext, by rw [Sequential.multiply, hhalt]; rfl, rfl, rfl, ?_⟩
    rw [Sequential.multiply, hpad]
    rfl
  | cons b' blocks ih =>
    have hread := Program.drop_succ hlen hdrop
    have hsync := Program.drop_succ hlen hread
    have hmultiply := Program.drop_succ hlen hsync
    obtain ⟨u, hu⟩ := h.overlap hclosed hc (a := b'.tile) (by rw [Program.fetch_of_drop hread]; rfl)
      (by rw [Program.fetch_of_drop hsync]; rfl) hsw hw (Nat.zero_le 3)
    have hnext := hu.sync hclosed (by rw [Program.fetch_of_drop hsync]; rfl)
    obtain ⟨v, w, hv, hhalt, hpad', hhost, hacc⟩ := ih hnext hmultiply rfl hpad
      (by rw [Course.command?, Program.fetch_of_drop hmultiply, Block.command?_multiply]) hsw
    refine ⟨v, w, hv, hhalt, hpad', hhost, hacc.trans ?_⟩
    rw [Sequential.multiply, hpad]
    rfl

end Run

end Course

/-- A small chip with accumulators of eight bits. -/
def narrow : Chip := { size := 4, accWidth := 8, padRows := 4, accRows := 3, hostRows := 1, tiles := 2 }

end Systolic
