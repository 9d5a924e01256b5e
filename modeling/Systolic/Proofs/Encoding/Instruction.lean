import Systolic.Instruction.Encoding
import Systolic.Proofs.Bytes.RoundTrip

/-!
# The bytes of one instruction

An instruction spelled out and read back keeps the low bytes of its fields (`Instruction.decode_encode`), so it comes back
as it was exactly if its fields fit into the layout (`Instruction.kept_eq_self_iff`). The other way round, as many bytes
as an instruction has are read if and only if their opcode field is below eight, and what is read fits and spells just
these bytes (`Instruction.decode_of_known`, `Instruction.decode_of_unknown`).
-/

namespace Systolic

namespace Layout

instance (l : Layout) : Decidable l.Valid := inferInstanceAs (Decidable (∀ w ∈ l.widths, 1 ≤ w ∧ w ≤ 8))

variable {l : Layout}

/-- What a valid layout says of its fields, one by one. -/
theorem Valid.fields (h : l.Valid) : (1 ≤ l.opcode ∧ l.opcode ≤ 8) ∧ (1 ≤ l.flags ∧ l.flags ≤ 8) ∧
    (1 ≤ l.length ∧ l.length ≤ 8) ∧ (1 ≤ l.memAddr ∧ l.memAddr ≤ 8) ∧ 1 ≤ l.padAddr ∧ l.padAddr ≤ 8 := by
  refine ⟨h _ ?_, h _ ?_, h _ ?_, h _ ?_, h _ ?_⟩ <;> simp [widths]

theorem Valid.width_pos (h : l.Valid) : 0 < l.width := by
  have := h.fields
  simp only [width]
  omega

end Layout

namespace Instruction

variable {l : Layout}

/-! ## Fields that fit -/

/-- The low `width` bytes of a field. -/
def lowBytes (width : Nat) (n : UInt64) : UInt64 := .ofNat (n.toNat % 256 ^ width)

/-- What the bytes of an instruction keep of it. -/
def kept (l : Layout) (i : Instruction) : Instruction :=
  { i with
    flags := lowBytes l.flags i.flags
    length := lowBytes l.length i.length
    memAddr := lowBytes l.memAddr i.memAddr
    padAddr := lowBytes l.padAddr i.padAddr }

/-- Every field fits into the bytes that the layout gives it. -/
structure Fits (l : Layout) (i : Instruction) : Prop where
  flags : i.flags.toNat < 256 ^ l.flags
  length : i.length.toNat < 256 ^ l.length
  memAddr : i.memAddr.toNat < 256 ^ l.memAddr
  padAddr : i.padAddr.toNat < 256 ^ l.padAddr

theorem lowBytes_eq_self_iff {width : Nat} {n : UInt64} : lowBytes width n = n ↔ n.toNat < 256 ^ width := by
  have hlt : n.toNat % 256 ^ width < 2 ^ 64 := Nat.lt_of_le_of_lt (Nat.mod_le _ _) n.toNat_lt
  rw [lowBytes, ← UInt64.toNat_inj, UInt64.toNat_ofNat_of_lt' hlt]
  constructor
  · intro h
    rw [← h]
    exact Nat.mod_lt _ (Nat.pow_pos (by decide))
  · exact Nat.mod_eq_of_lt

/-- An instruction is kept as it is exactly if its fields fit. -/
theorem kept_eq_self_iff {i : Instruction} : i.kept l = i ↔ i.Fits l := by
  obtain ⟨opcode, flags, length, memAddr, padAddr⟩ := i
  simp only [kept, mk.injEq, true_and, lowBytes_eq_self_iff]
  constructor
  · rintro ⟨hflags, hlength, hmem, hpad⟩
    exact ⟨hflags, hlength, hmem, hpad⟩
  · rintro ⟨hflags, hlength, hmem, hpad⟩
    exact ⟨hflags, hlength, hmem, hpad⟩

/-! ## Spelling -/

theorem length_encode (l : Layout) (i : Instruction) : (i.encode l).length = l.width := by
  simp [encode, Layout.width, Nat.add_assoc]

theorem takeField_append {width : Nat} {field : List UInt8} (h : field.length = width) (rest : List UInt8) :
    takeField width (field ++ rest) = (.ofNat (Bytes.value field), rest) := by
  rw [takeField, List.take_left' h, List.drop_left' h]

section Fields

variable {o f n m p : List UInt8} (ho : o.length = l.opcode) (hf : f.length = l.flags) (hn : n.length = l.length)
  (hm : m.length = l.memAddr) (hp : p.length = l.padAddr)
include ho hf hn hm hp

/-- The instruction that five fields spell. -/
theorem decode_append (index : Nat) : decode l index (o ++ f ++ n ++ m ++ p) =
    match Opcode.ofCode? (UInt64.ofNat (Bytes.value o)).toNat with
    | some opcode => .ok
      { opcode
        flags := .ofNat (Bytes.value f)
        length := .ofNat (Bytes.value n)
        memAddr := .ofNat (Bytes.value m)
        padAddr := .ofNat (Bytes.value p) }
    | none => .error (.unknownOpcode (.ofNat (Bytes.value o)) index) := by
  have hlast : takeField l.padAddr p = (.ofNat (Bytes.value p), []) := by
    have h := takeField_append hp []
    rwa [List.append_nil] at h
  have hwidth : (o ++ (f ++ (n ++ (m ++ p)))).length = l.width := by
    simp only [List.length_append, ho, hf, hn, hm, hp, Layout.width]
    omega
  rw [List.append_assoc, List.append_assoc, List.append_assoc, decode, if_pos hwidth]
  cases hop : Opcode.ofCode? (UInt64.ofNat (Bytes.value o)).toNat with
  | none => simp only [takeField_append ho, hop]
  | some opcode =>
    simp only [takeField_append ho, takeField_append hf, takeField_append hn, takeField_append hm, hlast, hop]

omit hf hn hm hp in
theorem take_opcode : (o ++ f ++ n ++ m ++ p).take l.opcode = o := by
  simp only [List.append_assoc]
  exact List.take_left' ho

end Fields

/-- An instruction is read back with the low bytes of its fields. -/
theorem decode_encode (hl : l.Valid) (index : Nat) (i : Instruction) :
    decode l index (i.encode l) = .ok (i.kept l) := by
  have hcode : (UInt64.ofNat (i.opcode.code % 256 ^ l.opcode)).toNat = i.opcode.code := by
    have hlt := i.opcode.code_lt
    have hpow : 256 ^ 1 ≤ 256 ^ l.opcode := Nat.pow_le_pow_right (by decide) hl.fields.1.1
    rw [Nat.mod_eq_of_lt (by omega), UInt64.toNat_ofNat_of_lt' (hlt.trans (by decide))]
  rw [encode, decode_append (Bytes.length_bigEndian _ _) (Bytes.length_bigEndian _ _) (Bytes.length_bigEndian _ _)
    (Bytes.length_bigEndian _ _) (Bytes.length_bigEndian _ _)]
  simp only [Bytes.value_bigEndian, hcode, Opcode.ofCode?_code]
  rfl

/-! ## Reading -/

/-- As many bytes as an instruction has are five fields. -/
theorem exists_fields {bytes : List UInt8} (h : bytes.length = l.width) : ∃ o f n m p, bytes = o ++ f ++ n ++ m ++ p ∧
    o.length = l.opcode ∧ f.length = l.flags ∧ n.length = l.length ∧ m.length = l.memAddr ∧ p.length = l.padAddr := by
  have hcut : ∀ {width rest : Nat} {bytes : List UInt8}, bytes.length = width + rest →
      ∃ field after, bytes = field ++ after ∧ field.length = width ∧ after.length = rest := by
    intro width rest bytes h
    refine ⟨bytes.take width, bytes.drop width, (List.take_append_drop _ _).symm, ?_, ?_⟩
    · rw [List.length_take]
      omega
    · rw [List.length_drop]
      omega
  obtain ⟨bytes, p, rfl, hbytes, hp⟩ := hcut h
  obtain ⟨bytes, m, rfl, hbytes, hm⟩ := hcut hbytes
  obtain ⟨bytes, n, rfl, hbytes, hn⟩ := hcut hbytes
  obtain ⟨o, f, rfl, ho, hf⟩ := hcut hbytes
  exact ⟨o, f, n, m, p, rfl, ho, hf, hn, hm, hp⟩

/-- Bytes with a known opcode are an instruction, which spells them. -/
theorem decode_of_known (hl : l.Valid) {bytes : List UInt8} (h : bytes.length = l.width) (index : Nat)
    (hopcode : Bytes.value (bytes.take l.opcode) < 8) :
    ∃ i, decode l index bytes = .ok i ∧ i.Fits l ∧ i.encode l = bytes := by
  obtain ⟨⟨-, ho8⟩, ⟨-, hf8⟩, ⟨-, hn8⟩, ⟨-, hm8⟩, -, hp8⟩ := hl.fields
  obtain ⟨o, f, n, m, p, rfl, ho, hf, hn, hm, hp⟩ := exists_fields h
  rw [take_opcode ho] at hopcode
  obtain ⟨opcode, hop⟩ : ∃ opcode : Opcode, Opcode.ofCode? (Bytes.value o) = some opcode :=
    ⟨_, List.getElem?_eq_getElem hopcode⟩
  have hcode := Opcode.ofCode?_eq_some_iff.1 hop
  have hword : ∀ {field : List UInt8} {width : Nat}, field.length = width → width ≤ 8 →
      (UInt64.ofNat (Bytes.value field)).toNat = Bytes.value field := by
    rintro field width rfl hwidth
    exact Bytes.toNat_ofNat_value hwidth
  rw [decode_append ho hf hn hm hp, hword ho ho8, hop]
  refine ⟨_, rfl, ⟨?_, ?_, ?_, ?_⟩, ?_⟩
  · rw [hword hf hf8, ← hf]
    exact Bytes.value_lt f
  · rw [hword hn hn8, ← hn]
    exact Bytes.value_lt n
  · rw [hword hm hm8, ← hm]
    exact Bytes.value_lt m
  · rw [hword hp hp8, ← hp]
    exact Bytes.value_lt p
  · rw [encode, ← hcode, hword hf hf8, hword hn hn8, hword hm hm8, hword hp hp8, ← ho, ← hf, ← hn, ← hm, ← hp]
    simp only [Bytes.bigEndian_value]

/-- Bytes with an unknown opcode are refused, with the whole field. -/
theorem decode_of_unknown {bytes : List UInt8} (hl : l.Valid) (h : bytes.length = l.width) (index : Nat)
    (hopcode : 8 ≤ Bytes.value (bytes.take l.opcode)) :
    decode l index bytes = .error (.unknownOpcode (.ofNat (Bytes.value (bytes.take l.opcode))) index) := by
  obtain ⟨o, f, n, m, p, rfl, ho, hf, hn, hm, hp⟩ := exists_fields h
  rw [take_opcode ho] at hopcode ⊢
  have hnone : Opcode.ofCode? (Bytes.value o) = none := List.getElem?_eq_none hopcode
  rw [decode_append ho hf hn hm hp, Bytes.toNat_ofNat_value (ho.le.trans hl.fields.1.2), hnone]

end Instruction

end Systolic
