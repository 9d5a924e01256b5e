import Systolic.Proofs.Flow.Path
import Systolic.Proofs.Sequential.Basic
import Systolic.Proofs.Width.Reachable

/-!
# Rows that carry an address

A jump row is written by the host link, read back by a multiplication, and decoded from the accumulators. On its way the
target is cut to the data width as a signed number, multiplied, cut to the accumulator width and read as an unsigned
number. With the identity as the tile, a row of the scratchpad reaches the accumulators as it is
(`Sequential.multiplyRow_identity`), so the target comes back up to the data width (`Outcome.decode_jumpRow`), and the
branch that a row asks for is the one it was written for. `Machine.Reachable.carried_rows` says so for every scratchpad
that a machine can have.
-/

namespace Systolic

/-! ## The identity as a tile -/

namespace Tile

/-- Ones on the diagonal. -/
def identity (size : Nat) : Tile :=
  .ofRow size ((List.range (size * size)).map fun k => if k / size = k % size then 1 else 0)

theorem get_identity {size r c : Nat} (hr : r < size) (hc : c < size) :
    (identity size).get r c = if r = c then 1 else 0 := by
  have hk : r * size + c < size * size :=
    calc r * size + c < r * size + size := Nat.add_lt_add_left hc _
      _ = (r + 1) * size := (Nat.succ_mul r size).symm
      _ ≤ size * size := Nat.mul_le_mul_right size hr
  have hdiv : (r * size + c) / size = r := by
    rw [Nat.mul_comm, Nat.mul_add_div (by omega), Nat.div_eq_of_lt hc, Nat.add_zero]
  have hmod : (r * size + c) % size = c := by
    rw [Nat.mul_comm, Nat.mul_add_mod, Nat.mod_eq_of_lt hc]
  rw [get, identity, ofRow, Row.getD_fit hk, List.getD_eq_getElem?_getD, List.getElem?_map, List.getElem?_range hk,
    Option.map_some, Option.getD_some, hdiv, hmod]

/-- A product with the identity is an element of the row, cut. -/
theorem product_identity (bits : Nat) {size c : Nat} (hc : c < size) (x : Row) :
    (identity size).product bits x c = Word.wrap bits (x.getD c 0) := by
  have hsum : ∑ r ∈ Finset.range size, (x.getD r 0).toInt * ((identity size).get r c).toInt = (x.getD c 0).toInt := by
    rw [Finset.sum_eq_single c]
    · rw [get_identity hc hc, if_pos rfl]
      exact Int.mul_one _
    · intro r hr hne
      rw [get_identity (Finset.mem_range.1 hr) hc, if_neg hne]
      exact Int.mul_zero _
    · intro hout
      exact absurd (Finset.mem_range.2 hc) hout
  rw [product, show (identity size).size = size from rfl, hsum, Word.kept, Int64.ofInt_toInt]

end Tile

/-- Multiplied by the identity, a row of data elements is itself. -/
theorem Sequential.multiplyRow_identity {chip : Chip} (hvalid : chip.Valid) {x : Row} (hlen : x.length = chip.size)
    (hx : x.Signed chip.dataWidth) (acc : AccStore) (addr : UInt64) :
    multiplyRow chip (.identity chip.size) true x acc addr = x := by
  have hdata := hvalid.dataWidth
  have hacc := hvalid.accWidth
  apply List.ext_getElem
  · rw [hlen, multiplyRow, List.length_map, List.length_range]
  · intro c hc hc'
    have hvalue : Word.wrap chip.accWidth x[c] = x[c] :=
      (hx _ (List.getElem_mem hc')).wrap_eq hacc.1 (by omega) (by omega)
    simp only [multiplyRow, List.getElem_map, List.getElem_range, if_true]
    rw [Tile.product_identity _ (hlen ▸ hc'), List.getD_eq_getElem?_getD, List.getElem?_eq_getElem hc', Option.getD_some,
      hvalue]

/-! ## Jump rows -/

namespace HostLink

variable {chip : Chip}

theorem length_jumpRow (chip : Chip) (target : UInt64) : (jumpRow chip target).length = chip.size := by
  simp [jumpRow]

theorem tag_jumpRow (hvalid : chip.Valid) (target : UInt64) :
    (jumpRow chip target).getD (chip.size - 1) 0 = Tag.jump.code := by
  have hsize := hvalid.size
  have hlast : chip.size - 1 < chip.size := by omega
  simp [jumpRow, hlast]

theorem target_jumpRow (hvalid : chip.Valid) (target : UInt64) :
    (jumpRow chip target).getD 1 0 = Word.wrap chip.dataWidth target.toInt64 := by
  have hsize := hvalid.size
  have hone : 1 < chip.size := by omega
  have hne : chip.size - 1 ≠ 1 := by omega
  simp [jumpRow, hone, hne]

end HostLink

namespace Outcome

variable {chip : Chip}

/-- The first row of an activation reads the target back, up to the data width. -/
theorem decode_jumpRow (hvalid : chip.Valid) (f : Activation) (target : UInt64) :
    decode chip f true (HostLink.jumpRow chip target) = .jump (.ofNat (target.toNat % 2 ^ chip.dataWidth)) := by
  have hdata := hvalid.dataWidth
  unfold decode
  dsimp only
  rw [HostLink.length_jumpRow, HostLink.tag_jumpRow hvalid, HostLink.target_jumpRow hvalid, Tag.ofCode?_code,
    Word.low_wrap_toInt64 (by omega) (by omega)]

/-- In a later row the tag of a jump does not count. -/
theorem decode_jumpRow_later (hvalid : chip.Valid) (f : Activation) (target : UInt64) :
    decode chip f false (HostLink.jumpRow chip target) =
      .activated (Row.wrap chip.dataWidth ((HostLink.jumpRow chip target).map (f.apply chip.accWidth))) := by
  unfold decode
  dsimp only
  rw [HostLink.length_jumpRow, HostLink.tag_jumpRow hvalid, Tag.ofCode?_code]

/-- A branch writes nothing back. -/
theorem writeback?_of_redirect {o : Outcome} {pc target : UInt64} (h : o.redirect? pc = some target) :
    o.writeback? = none := by
  cases o <;> first | rfl | cases h

end Outcome

/-! ## The scratchpad of a machine -/

namespace Machine

variable {chip : Chip} {program : Program} {m : Machine}

theorem Reachable.length_pad_read (h : Reachable chip program m) (addr : UInt64) :
    (m.memories.pad.read addr).length = chip.size :=
  h.formed.stores.pad.length_read h.formed.valid.padRows addr

theorem Reachable.signed_pad_read (h : Reachable chip program m) (addr : UInt64) :
    (m.memories.pad.read addr).Signed chip.dataWidth := by
  have hsigned := h.signed.memories.pad.read addr
  rwa [h.formed.chip_eq] at hsigned

/-- A jump row is read back as it was written. -/
theorem Reachable.read_jumpRow (h : Reachable chip program m) (addr target : UInt64) :
    (m.memories.pad.write addr (HostLink.jumpRow chip target)).read addr = HostLink.jumpRow chip target := by
  have hfits : m.memories.pad.Fits chip.padRows chip.size := h.formed.stores.pad
  have hdepth : 0 < m.memories.pad.depth := by
    rw [hfits.depth_eq]
    exact h.formed.valid.padRows
  rw [RowStore.read_write hdepth, if_pos rfl, hfits.width_eq, ← HostLink.length_jumpRow chip target, Row.fit_length]

/-- **Rows carry addresses.** For the scratchpad of a reachable machine, the identity as the tile and any activation
function:

- a jump row that has been written to the scratchpad and multiplied jumps, as a first row, to its target modulo
  `2 ^ dataWidth`, which is the target if the target fits into an element, and writes nothing back;
- as a later row it is activated like any other and redirects nowhere;
- a row of the scratchpad with the tag of a branch leads, once it has been multiplied, to the next instruction plus its
  element 0 or 1, modulo `2 ^ 64`, and writes nothing back. Which of the two it is depends on whether the element before
  the tag differs from zero. -/
theorem Reachable.carried_rows (h : Reachable chip program m) (f : Activation) (pc : UInt64) (acc : AccStore)
    (accAddr padAddr : UInt64) :
    let carried := fun row => Sequential.multiplyRow chip (.identity chip.size) true row acc accAddr
    (∀ target : UInt64,
      let row := carried ((m.memories.pad.write padAddr (HostLink.jumpRow chip target)).read padAddr)
      let first := Outcome.decode chip f true row
      let later := Outcome.decode chip f false row
      (first = .jump (.ofNat (target.toNat % 2 ^ chip.dataWidth)) ∧
        (target.toNat < 2 ^ chip.dataWidth → first.redirect? pc = some target) ∧ first.writeback? = none) ∧
      later = .activated (Row.wrap chip.dataWidth (row.map (f.apply chip.accWidth))) ∧ later.redirect? pc = none) ∧
    let row := m.memories.pad.read padAddr
    row.getD (chip.size - 1) 0 = Tag.branch.code →
      let first := Outcome.decode chip f true (carried row)
      first.writeback? = none ∧ ∃ target : UInt64, first.redirect? pc = some target ∧
        (target.toNat : Int) = ((pc.toNat : Int) + 1 +
          (if row.getD (chip.size - 2) 0 ≠ 0 then row.getD 0 0 else row.getD 1 0).toInt) % 2 ^ 64 := by
  have hvalid := h.formed.valid
  refine ⟨fun target => ?_, fun htag => ?_⟩
  · have hrow : Sequential.multiplyRow chip (.identity chip.size) true
        ((m.memories.pad.write padAddr (HostLink.jumpRow chip target)).read padAddr) acc accAddr =
          HostLink.jumpRow chip target := by
      rw [h.read_jumpRow, Sequential.multiplyRow_identity hvalid (HostLink.length_jumpRow chip target)
        (HostLink.signed_jumpRow hvalid target)]
    dsimp only
    rw [hrow, Outcome.decode_jumpRow hvalid, Outcome.decode_jumpRow_later hvalid]
    refine ⟨⟨rfl, fun hlt => ?_, rfl⟩, rfl, rfl⟩
    rw [Nat.mod_eq_of_lt hlt, UInt64.ofNat_toNat]
    rfl
  · have hlen := h.length_pad_read padAddr
    dsimp only
    rw [Sequential.multiplyRow_identity hvalid hlen (h.signed_pad_read padAddr)]
    have hredirect := Outcome.redirect?_first chip f (m.memories.pad.read padAddr) pc
    rw [hlen, htag, show Tag.branch.code = 1 from rfl, if_pos rfl] at hredirect
    exact ⟨Outcome.writeback?_of_redirect hredirect, _, hredirect, Word.toNat_offset pc _⟩

/-- A chip with elements of four bits, in accumulators of the same width. -/
def nibbles : Chip := { size := 4, dataWidth := 4, accWidth := 4, padRows := 2, accRows := 2, hostRows := 2, tiles := 1 }

/-- A taken branch by `-8`. -/
def nibbleBranch : Machine := (powerOn nibbles ⟨[]⟩).poke (.pad 1 [-8, 3, 1, 1])

/-- A target beyond the signed elements of four bits, and a branch to before address 0. -/
theorem Reachable.carried_rows_nibbles :
    (Outcome.decode nibbles .relu true (Sequential.multiplyRow nibbles (.identity 4) true
      ((nibbleBranch.memories.pad.write 1 (HostLink.jumpRow nibbles 13)).read 1) (.blank 4 2) 0)).redirect? 7 = some 13 ∧
    ∃ target : UInt64, (Outcome.decode nibbles .relu true (Sequential.multiplyRow nibbles (.identity 4) true
      (nibbleBranch.memories.pad.read 1) (.blank 4 2) 0)).redirect? 5 = some target ∧ target.toNat = 2 ^ 64 - 2 := by
  have hreach : Reachable nibbles ⟨[]⟩ nibbleBranch := (Reachable.build rfl).poke _
  obtain ⟨hjump, -⟩ := hreach.carried_rows .relu 7 (.blank 4 2) 0 1
  obtain ⟨-, hbranch⟩ := hreach.carried_rows .relu 5 (.blank 4 2) 0 1
  obtain ⟨-, target, hredirect, htarget⟩ := hbranch (by decide)
  refine ⟨(hjump 13).1.2.1 (by decide), target, hredirect, ?_⟩
  exact Int.ofNat_inj.1 (htarget.trans (by decide))

end Machine

end Systolic
