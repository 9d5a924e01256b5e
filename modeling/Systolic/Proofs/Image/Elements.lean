import Systolic.Machine.Image
import Systolic.Proofs.Bytes.Chunks
import Systolic.Proofs.Bytes.RoundTrip
import Systolic.Proofs.Word.Exact
import Systolic.Proofs.Word.Signed

/-!
# The elements of an image

Bytes that are read as an element and written back stay as they are (`Image.elementToBytes_element`). The other way an
element keeps the bits that its bytes have (`Image.element_elementToBytes`), and with them every signed number of the
data width. `Image.wrap_pieces` says what a memory keeps of an image that is cut into pieces, byte by byte.
-/

namespace Systolic

/-- The bytes of an element: as few as hold the data width. -/
theorem Chip.Valid.elementBytes {chip : Chip} (h : chip.Valid) :
    0 < Image.elementBytes chip ∧ Image.elementBytes chip ≤ 8 ∧ chip.dataWidth ≤ 8 * Image.elementBytes chip := by
  have := h.dataWidth
  rw [Image.elementBytes]
  omega

namespace Image

variable {width count : Nat} {bytes : List UInt8}

/-! ## One element -/

theorem length_elementToBytes (width : Nat) (v : Word) : (elementToBytes width v).length = width :=
  Bytes.length_bigEndian width _

theorem two_pow_eight_mul (width : Nat) : 2 ^ (8 * width) = 256 ^ width := Nat.pow_mul 2 8 width

/-- Reading undoes writing up to the bits that the bytes have. -/
theorem element_elementToBytes (h0 : 0 < width) (h8 : width ≤ 8) (v : Word) :
    element (elementToBytes width v) = Word.wrap (8 * width) v := by
  have hbits : 0 < 8 * width := by omega
  have hword : 8 * width ≤ 64 := by omega
  apply Int64.toInt_inj.1
  rw [element, length_elementToBytes, Word.toInt_wrap hbits hword, Word.toInt_toInt64_ofNat,
    Int.bmod_bmod_of_dvd (Nat.pow_dvd_pow 2 hword), Word.toInt_wrap_unsigned hbits hword, elementToBytes,
    Bytes.value_bigEndian, ← two_pow_eight_mul, Int.natCast_emod, Int.emod_bmod]

/-- Writing undoes reading. -/
theorem elementToBytes_element (h0 : 0 < bytes.length) (h8 : bytes.length ≤ 8) :
    elementToBytes bytes.length (element bytes) = bytes := by
  have hword : 8 * bytes.length ≤ 64 := by omega
  -- the element has the low bytes of the number that it was read from
  have hlow : (element bytes).toUInt64.toNat % 256 ^ bytes.length = Bytes.value bytes := by
    rw [← two_pow_eight_mul, ← Word.toNat_low, element, Word.low_wrap (by omega) hword, Word.toNat_low,
      two_pow_eight_mul, UInt64.toUInt64_toInt64, Bytes.toNat_ofNat_value h8, Nat.mod_eq_of_lt (Bytes.value_lt bytes)]
  rw [elementToBytes, ← Bytes.bigEndian_mod, hlow, Bytes.bigEndian_value]

/-- A register that is no wider than the bytes keeps the number that they spell. -/
theorem wrap_element {bits : Nat} (h0 : 0 < bits) (hw : bits ≤ 8 * bytes.length) (h8 : bytes.length ≤ 8) :
    Word.wrap bits (element bytes) = Word.kept bits (Bytes.value bytes) := by
  have hword : 8 * bytes.length ≤ 64 := by omega
  have h1 : bits ≤ 64 := Nat.le_trans hw hword
  apply Int64.toInt_inj.1
  rw [element, Word.wrap_wrap h0 hw hword, Word.toInt_wrap h0 h1, Word.toInt_toInt64_ofNat,
    Int.bmod_bmod_of_dvd (Nat.pow_dvd_pow 2 h1), Word.toInt_kept h0 h1]

/-! ## The elements of one piece -/

theorem elements_eq (h0 : 0 < width) (h : bytes.length = count * width) :
    elements width bytes = (Bytes.chunks width count bytes).map element := by
  rw [elements, h, Nat.mul_div_cancel count h0]

theorem length_elements (h0 : 0 < width) (h : bytes.length = count * width) :
    (elements width bytes).length = count := by
  rw [elements_eq h0 h, List.length_map, Bytes.length_chunks]

/-- Reading a row that has been written. -/
theorem elements_flatMap (h0 : 0 < width) (h8 : width ≤ 8) (row : Row) :
    elements width (row.flatMap (elementToBytes width)) = row.wrap (8 * width) := by
  have hlen : ∀ v ∈ row, (elementToBytes width v).length = width := fun v _ => length_elementToBytes width v
  rw [elements_eq h0 (Bytes.length_flatMap hlen), Bytes.chunks_flatMap hlen, List.map_map, Row.wrap]
  exact List.map_congr_left fun v _ => element_elementToBytes h0 h8 v

/-- Writing a piece that has been read. -/
theorem flatMap_elements (h0 : 0 < width) (h8 : width ≤ 8) (h : bytes.length = count * width) :
    (elements width bytes).flatMap (elementToBytes width) = bytes := by
  have hback : ∀ b ∈ Bytes.chunks width count bytes, elementToBytes width (element b) = b := by
    intro b hb
    obtain rfl := Bytes.length_of_mem_chunks h b hb
    exact elementToBytes_element h0 h8
  rw [elements_eq h0 h, List.flatMap_map, List.flatMap_def, List.map_congr_left hback, List.map_id',
    Bytes.flatten_chunks h]

/-! ## The pieces of an image -/

section Pieces

variable (chip : Chip) (kind : ImageKind)

/-- An image in pieces of `count` elements. -/
def pieces (count : Nat) (bytes : List UInt8) : List Row :=
  (Bytes.chunks (count * elementBytes chip) (bytes.length / (count * elementBytes chip)) bytes).map
    (elements (elementBytes chip))

/-- Piece `k` of an image as a memory keeps it: every element is the number that its bytes spell, in a register of the
data width. -/
def stored (count : Nat) (bytes : List UInt8) (k : Nat) : Row :=
  (List.range count).map fun i =>
    Word.kept chip.dataWidth
      (Bytes.value ((bytes.drop ((k * count + i) * elementBytes chip)).take (elementBytes chip)))

theorem split_of_dvd (h : count * elementBytes chip ∣ bytes.length) :
    split chip kind count bytes = .ok (pieces chip count bytes) := by
  simp only [split, if_pos (Nat.mod_eq_zero_of_dvd h), pieces]

theorem split_of_ragged (h : ¬ count * elementBytes chip ∣ bytes.length) :
    split chip kind count bytes = .error ⟨kind, bytes.length, count * elementBytes chip⟩ := by
  simp only [split, if_neg fun hmod => h (Nat.dvd_of_mod_eq_zero hmod)]

theorem length_pieces : (pieces chip count bytes).length = bytes.length / (count * elementBytes chip) := by
  rw [pieces, List.length_map, Bytes.length_chunks]

variable {chip}

/-- The bytes of element `i` of piece `k`. -/
theorem element_of_piece {k i : Nat} (hi : i < count) :
    (((bytes.drop (k * (count * width))).take (count * width)).drop (i * width)).take width =
      (bytes.drop ((k * count + i) * width)).take width := by
  have hle := Nat.mul_le_mul_right width (Nat.succ_le_of_lt hi)
  rw [Nat.succ_mul] at hle
  rw [List.drop_take, List.take_take, List.drop_drop, Nat.min_eq_left (by omega), Nat.add_mul, Nat.mul_assoc]

theorem length_of_element {k i : Nat} (hi : i < count) (h : k * (count * width) + count * width ≤ bytes.length) :
    ((bytes.drop ((k * count + i) * width)).take width).length = width := by
  have hle := Nat.mul_le_mul_right width (Nat.succ_le_of_lt hi)
  rw [Nat.succ_mul] at hle
  rw [List.length_take, List.length_drop, Nat.add_mul, Nat.mul_assoc]
  omega

variable (hvalid : chip.Valid)
include hvalid

/-- Every piece is a whole row or tile. -/
theorem length_of_mem_pieces (h : count * elementBytes chip ∣ bytes.length) :
    ∀ row ∈ pieces chip count bytes, row.length = count := by
  intro row hrow
  obtain ⟨piece, hpiece, rfl⟩ := List.mem_map.1 hrow
  exact length_elements hvalid.elementBytes.1
    (Bytes.length_of_mem_chunks (Nat.div_mul_cancel h).symm piece hpiece)

/-- The pieces spell the image. -/
theorem flatMap_pieces (h : count * elementBytes chip ∣ bytes.length) :
    (pieces chip count bytes).flatMap (fun row => row.flatMap (elementToBytes (elementBytes chip))) = bytes := by
  obtain ⟨h0, h8, -⟩ := hvalid.elementBytes
  have hlen := (Nat.div_mul_cancel h).symm
  have hback : ∀ piece ∈ Bytes.chunks (count * elementBytes chip) (bytes.length / (count * elementBytes chip)) bytes,
      (elements (elementBytes chip) piece).flatMap (elementToBytes (elementBytes chip)) = piece :=
    fun piece hpiece => flatMap_elements h0 h8 (Bytes.length_of_mem_chunks hlen piece hpiece)
  rw [pieces, List.flatMap_map, List.flatMap_def, List.map_congr_left hback, List.map_id', Bytes.flatten_chunks hlen]

/-- What a memory keeps of one piece. -/
theorem wrap_elements {k : Nat} (h : (k + 1) * (count * elementBytes chip) ≤ bytes.length) :
    (elements (elementBytes chip)
      ((bytes.drop (k * (count * elementBytes chip))).take (count * elementBytes chip))).wrap chip.dataWidth =
      stored chip count bytes k := by
  obtain ⟨h0, h8, hw⟩ := hvalid.elementBytes
  have hpos : 0 < chip.dataWidth := Nat.lt_of_lt_of_le (by decide) hvalid.dataWidth.1
  rw [Nat.succ_mul] at h
  have hpiece : ((bytes.drop (k * (count * elementBytes chip))).take (count * elementBytes chip)).length =
      count * elementBytes chip := by
    rw [List.length_take, List.length_drop]
    omega
  rw [elements_eq h0 hpiece, Bytes.chunks_eq, List.map_map, Row.wrap, List.map_map, stored]
  apply List.map_congr_left
  intro i hi
  have hlt := List.mem_range.1 hi
  have hlen := length_of_element hlt h
  have hkept := wrap_element hpos (by rwa [hlen]) (by rwa [hlen])
  simp only [Function.comp_apply, element_of_piece hlt]
  exact hkept

/-- What a memory keeps of the pieces of an image. -/
theorem wrap_pieces (h : count * elementBytes chip ∣ bytes.length) :
    (pieces chip count bytes).map (Row.wrap chip.dataWidth) =
      (List.range (bytes.length / (count * elementBytes chip))).map (stored chip count bytes) := by
  rw [pieces, Bytes.chunks_eq, List.map_map, List.map_map]
  apply List.map_congr_left
  intro k hk
  apply wrap_elements hvalid
  have hle := Nat.mul_le_mul_right (count * elementBytes chip) (List.mem_range.1 hk)
  rwa [Nat.div_mul_cancel h] at hle

/-- Elements that fill their bytes are kept as they are read. -/
theorem wrap_of_mem_pieces (h : count * elementBytes chip ∣ bytes.length) (hfull : 8 ∣ chip.dataWidth) :
    ∀ row ∈ pieces chip count bytes, row.wrap chip.dataWidth = row := by
  intro row hrow
  obtain ⟨piece, hpiece, rfl⟩ := List.mem_map.1 hrow
  have hdata := hvalid.dataWidth
  have hbits : 8 * elementBytes chip = chip.dataWidth := by
    rw [elementBytes]
    omega
  have hlen := Bytes.length_of_mem_chunks (Nat.div_mul_cancel h).symm piece hpiece
  rw [elements_eq hvalid.elementBytes.1 hlen, Row.wrap, List.map_map]
  apply List.map_congr_left
  intro b hb
  rw [Function.comp, element, Bytes.length_of_mem_chunks hlen b hb, hbits]
  exact Word.wrap_wrap (by omega) (Nat.le_refl _) (by omega) _

end Pieces

end Image

end Systolic
