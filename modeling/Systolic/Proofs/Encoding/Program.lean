import Mathlib.Data.Nat.Find
import Systolic.Program.Basic
import Systolic.Proofs.Encoding.Instruction

/-!
# The bytes of a program

`Program.decode_accepts` says which byte streams are programs, and which error the others give; a stream that is accepted
is exactly what its program spells. `Program.decode_encode` is the other direction: a program that is spelled out is read
back up to the bytes that its fields have in the layout.
-/

namespace Systolic.Program

variable {l : Layout}

/-! ## Streams of instructions -/

/-- The opcode field of instruction `k` of a stream. -/
def opcodeField (l : Layout) (bytes : List UInt8) (k : Nat) : Nat :=
  Bytes.value ((bytes.drop (k * l.width)).take l.opcode)

theorem opcodeField_zero (l : Layout) (bytes : List UInt8) :
    opcodeField l bytes 0 = Bytes.value (bytes.take l.opcode) := by
  rw [opcodeField, Nat.zero_mul, List.drop_zero]

theorem opcodeField_drop (l : Layout) (bytes : List UInt8) (k : Nat) :
    opcodeField l (bytes.drop l.width) k = opcodeField l bytes (k + 1) := by
  rw [opcodeField, opcodeField, List.drop_drop, Nat.succ_mul, Nat.add_comm]

/-- The first instruction of a stream and the rest of it. -/
theorem first_of_stream {bytes : List UInt8} {count : Nat} (h : bytes.length = (count + 1) * l.width) :
    (bytes.take l.width).length = l.width ∧ (bytes.drop l.width).length = count * l.width := by
  rw [Nat.succ_mul] at h
  rw [List.length_take, List.length_drop]
  omega

theorem take_opcode_first (l : Layout) (bytes : List UInt8) :
    (bytes.take l.width).take l.opcode = bytes.take l.opcode := by
  rw [List.take_take, Nat.min_eq_left (by simp only [Layout.width]; omega)]

/-- A stream of known opcodes is read, and spelled by what is read. -/
theorem decodeFrom_of_known (hl : l.Valid) {count : Nat} (index : Nat) {bytes : List UInt8}
    (h : bytes.length = count * l.width) (hknown : ∀ k < count, opcodeField l bytes k < 8) :
    ∃ is, decodeFrom l index count bytes = .ok is ∧ is.length = count ∧ (∀ i ∈ is, i.Fits l) ∧
      (is.map (·.encode l)).flatten = bytes := by
  induction count generalizing index bytes with
  | zero =>
    rw [Nat.zero_mul] at h
    exact ⟨[], rfl, rfl, nofun, (List.length_eq_zero_iff.1 h).symm⟩
  | succ count ih =>
    obtain ⟨hfirst, hrest⟩ := first_of_stream h
    have hopcode := hknown 0 (Nat.succ_pos count)
    rw [opcodeField_zero, ← take_opcode_first] at hopcode
    obtain ⟨i, hi, hfits, hspelled⟩ := Instruction.decode_of_known hl hfirst index hopcode
    obtain ⟨is, his, hlength, hall, hflatten⟩ := ih (index + 1) hrest fun k hk => by
      rw [opcodeField_drop]
      exact hknown (k + 1) (Nat.succ_lt_succ hk)
    refine ⟨i :: is, ?_, ?_, ?_, ?_⟩
    · rw [decodeFrom, hi, his]
      rfl
    · rw [List.length_cons, hlength]
    · rintro j (_ | ⟨_, hj⟩)
      · exact hfits
      · exact hall j hj
    · rw [List.map_cons, List.flatten_cons, hspelled, hflatten, List.take_append_drop]

/-- A stream is refused at its first unknown opcode. -/
theorem decodeFrom_of_unknown (hl : l.Valid) {count k : Nat} (index : Nat) {bytes : List UInt8}
    (h : bytes.length = count * l.width) (hk : k < count) (hbefore : ∀ j < k, opcodeField l bytes j < 8)
    (hunknown : 8 ≤ opcodeField l bytes k) :
    decodeFrom l index count bytes = .error (.unknownOpcode (.ofNat (opcodeField l bytes k)) (index + k)) := by
  induction count generalizing index k bytes with
  | zero => cases hk
  | succ count ih =>
    obtain ⟨hfirst, hrest⟩ := first_of_stream h
    cases k with
    | zero =>
      rw [opcodeField_zero, ← take_opcode_first] at hunknown ⊢
      rw [decodeFrom, Instruction.decode_of_unknown hl hfirst index hunknown]
      rfl
    | succ k =>
      have hopcode := hbefore 0 (Nat.succ_pos k)
      rw [opcodeField_zero, ← take_opcode_first] at hopcode
      obtain ⟨i, hi, -⟩ := Instruction.decode_of_known hl hfirst index hopcode
      have hlater := ih (k := k) (index + 1) hrest (Nat.lt_of_succ_lt_succ hk)
        (fun j hj => by
          rw [opcodeField_drop]
          exact hbefore (j + 1) (Nat.succ_lt_succ hj))
        (by rwa [opcodeField_drop])
      rw [opcodeField_drop, Nat.add_right_comm] at hlater
      rw [decodeFrom, hi, hlater]
      rfl

/-! ## Which streams are programs -/

/-- Every field of every instruction fits into its bytes. -/
def Fits (l : Layout) (p : Program) : Prop := ∀ i ∈ p.instructions, i.Fits l

variable {bytes : List UInt8}

theorem decode_of_ragged (h : ¬ l.width ∣ bytes.length) : decode l bytes = .error (.truncated bytes.length l.width) := by
  rw [decode, if_neg fun hmod => h (Nat.dvd_of_mod_eq_zero hmod)]

theorem decode_of_known (hl : l.Valid) (h : l.width ∣ bytes.length)
    (hknown : ∀ k < bytes.length / l.width, opcodeField l bytes k < 8) :
    ∃ p, decode l bytes = .ok p ∧ p.length = bytes.length / l.width ∧ p.Fits l ∧ p.encode l = bytes := by
  obtain ⟨is, his, hlength, hfits, hflatten⟩ :=
    decodeFrom_of_known hl 0 (Nat.div_mul_cancel h).symm hknown
  refine ⟨⟨is⟩, ?_, hlength, hfits, hflatten⟩
  rw [decode, if_pos (Nat.mod_eq_zero_of_dvd h), his]
  rfl

theorem decode_of_unknown (hl : l.Valid) (h : l.width ∣ bytes.length) {k : Nat} (hk : k < bytes.length / l.width)
    (hbefore : ∀ j < k, opcodeField l bytes j < 8) (hunknown : 8 ≤ opcodeField l bytes k) :
    decode l bytes = .error (.unknownOpcode (.ofNat (opcodeField l bytes k)) k) := by
  have hfrom := decodeFrom_of_unknown hl 0 (Nat.div_mul_cancel h).symm hk hbefore hunknown
  rw [Nat.zero_add] at hfrom
  rw [decode, if_pos (Nat.mod_eq_zero_of_dvd h), hfrom]
  rfl

/-- A stream is ragged, or all its opcodes are known, or there is a first unknown one. -/
theorem stream_cases (l : Layout) (bytes : List UInt8) : ¬ l.width ∣ bytes.length ∨
    l.width ∣ bytes.length ∧ (∀ k < bytes.length / l.width, opcodeField l bytes k < 8) ∨
    l.width ∣ bytes.length ∧ ∃ k < bytes.length / l.width, (∀ j < k, opcodeField l bytes j < 8) ∧
      8 ≤ opcodeField l bytes k := by
  by_cases hdvd : l.width ∣ bytes.length
  · by_cases hknown : ∀ k < bytes.length / l.width, opcodeField l bytes k < 8
    · exact Or.inr (Or.inl ⟨hdvd, hknown⟩)
    · have hex : ∃ k, k < bytes.length / l.width ∧ 8 ≤ opcodeField l bytes k := by
        simpa only [not_forall, Nat.not_lt, exists_prop] using hknown
      obtain ⟨hk, hunknown⟩ := Nat.find_spec hex
      refine Or.inr (Or.inr ⟨hdvd, Nat.find hex, hk, fun j hj => ?_, hunknown⟩)
      have hmin := Nat.find_min hex hj
      omega
  · exact Or.inl hdvd

/-- The error for a ragged stream says how long it is, and how long an instruction. -/
theorem decode_eq_truncated_iff (hl : l.Valid) {length width : Nat} :
    decode l bytes = .error (.truncated length width) ↔
      length = bytes.length ∧ width = l.width ∧ ¬ l.width ∣ bytes.length := by
  constructor
  · intro h
    rcases stream_cases l bytes with hragged | ⟨hdvd, hknown⟩ | ⟨hdvd, k, hk, hbefore, hunknown⟩
    · rw [decode_of_ragged hragged] at h
      cases h
      exact ⟨rfl, rfl, hragged⟩
    · obtain ⟨p, hp, -⟩ := decode_of_known hl hdvd hknown
      rw [hp] at h
      cases h
    · rw [decode_of_unknown hl hdvd hk hbefore hunknown] at h
      cases h
  · rintro ⟨rfl, rfl, hragged⟩
    exact decode_of_ragged hragged

/-- An opcode field is at most a word. -/
theorem toNat_opcodeField (hl : l.Valid) (bytes : List UInt8) (k : Nat) :
    (UInt64.ofNat (opcodeField l bytes k)).toNat = opcodeField l bytes k :=
  Bytes.toNat_ofNat_value ((List.length_take_le _ _).trans hl.fields.1.2)

/-- The error for an unknown opcode names the first one, by its whole field. -/
theorem decode_eq_unknown_iff (hl : l.Valid) {opcode : UInt64} {index : Nat} :
    decode l bytes = .error (.unknownOpcode opcode index) ↔
      l.width ∣ bytes.length ∧ index < bytes.length / l.width ∧ (∀ k < index, opcodeField l bytes k < 8) ∧
        8 ≤ opcodeField l bytes index ∧ opcode.toNat = opcodeField l bytes index := by
  constructor
  · intro h
    rcases stream_cases l bytes with hragged | ⟨hdvd, hknown⟩ | ⟨hdvd, k, hk, hbefore, hunknown⟩
    · rw [decode_of_ragged hragged] at h
      cases h
    · obtain ⟨p, hp, -⟩ := decode_of_known hl hdvd hknown
      rw [hp] at h
      cases h
    · rw [decode_of_unknown hl hdvd hk hbefore hunknown] at h
      cases h
      exact ⟨hdvd, hk, hbefore, hunknown, toNat_opcodeField hl bytes _⟩
  · rintro ⟨hdvd, hindex, hbefore, hunknown, hopcode⟩
    rw [decode_of_unknown hl hdvd hindex hbefore hunknown, ← hopcode, UInt64.ofNat_toNat]

/-- What is accepted fits into the layout and spells the stream. -/
theorem of_decode (hl : l.Valid) {p : Program} (h : decode l bytes = .ok p) :
    l.width ∣ bytes.length ∧ (∀ k < bytes.length / l.width, opcodeField l bytes k < 8) ∧
      p.length = bytes.length / l.width ∧ p.Fits l ∧ p.encode l = bytes := by
  rcases stream_cases l bytes with hragged | ⟨hdvd, hknown⟩ | ⟨hdvd, k, hk, hbefore, hunknown⟩
  · rw [decode_of_ragged hragged] at h
    cases h
  · obtain ⟨q, hq, hlength, hfits, hspelled⟩ := decode_of_known hl hdvd hknown
    rw [hq] at h
    cases h
    exact ⟨hdvd, hknown, hlength, hfits, hspelled⟩
  · rw [decode_of_unknown hl hdvd hk hbefore hunknown] at h
    cases h

/-- **Exactly the valid streams are programs.** A stream that is no whole number of instructions is refused with its
length; else a stream with an opcode field above seven is refused with the first such field and its place; any other
stream is a program of as many instructions as it has places for, which spells the stream byte for byte. -/
theorem decode_accepts (hl : l.Valid) (bytes : List UInt8) :
    (∀ length width, decode l bytes = .error (.truncated length width) ↔
      length = bytes.length ∧ width = l.width ∧ ¬ l.width ∣ bytes.length) ∧
    (∀ opcode index, decode l bytes = .error (.unknownOpcode opcode index) ↔
      l.width ∣ bytes.length ∧ index < bytes.length / l.width ∧ (∀ k < index, opcodeField l bytes k < 8) ∧
        8 ≤ opcodeField l bytes index ∧ opcode.toNat = opcodeField l bytes index) ∧
    ((∃ p, decode l bytes = .ok p) ↔
      l.width ∣ bytes.length ∧ ∀ k < bytes.length / l.width, opcodeField l bytes k < 8) ∧
    ∀ p, decode l bytes = .ok p → p.length = bytes.length / l.width ∧ p.encode l = bytes := by
  refine ⟨fun _ _ => decode_eq_truncated_iff hl, fun _ _ => decode_eq_unknown_iff hl, ?_, ?_⟩
  · constructor
    · rintro ⟨p, hp⟩
      obtain ⟨hdvd, hknown, -⟩ := of_decode hl hp
      exact ⟨hdvd, hknown⟩
    · rintro ⟨hdvd, hknown⟩
      obtain ⟨p, hp, -⟩ := decode_of_known hl hdvd hknown
      exact ⟨p, hp⟩
  · intro p hp
    obtain ⟨-, -, hlength, -, hspelled⟩ := of_decode hl hp
    exact ⟨hlength, hspelled⟩

/-- Two-byte opcodes and three-byte addresses. -/
def wide : Layout := { opcode := 2, length := 1, memAddr := 3, padAddr := 1 }

/-- A weight read and an activation. -/
def loadAndActivate : List UInt8 := [0, 2, 0, 0, 0, 1, 255, 0, 0, 4, 1, 9, 128, 0, 0, 7]

/-- An opcode whose low byte alone would be known. -/
theorem decode_accepts_wide : wide.Valid ∧
    (∃ p, decode wide loadAndActivate = .ok p ∧ p.length = 2 ∧ p.encode wide = loadAndActivate) ∧
    decode wide (loadAndActivate.set 8 1) = .error (.unknownOpcode 0x104 1) ∧
    decode wide (loadAndActivate.drop 1) = .error (.truncated 15 8) := by
  have hwide : wide.Valid := by decide
  refine ⟨hwide, ?_, ?_, ?_⟩
  · obtain ⟨p, hp⟩ := (decode_accepts hwide loadAndActivate).2.2.1.2 (by decide)
    exact ⟨p, hp, (decode_accepts hwide loadAndActivate).2.2.2 p hp⟩
  · exact ((decode_accepts hwide _).2.1 _ _).2 (by decide)
  · exact ((decode_accepts hwide _).1 _ _).2 (by decide)

/-! ## There and back -/

/-- What the bytes of a program keep of it. -/
def kept (l : Layout) (p : Program) : Program := ⟨p.instructions.map (·.kept l)⟩

theorem kept_eq_self_iff {p : Program} : p.kept l = p ↔ p.Fits l := by
  obtain ⟨is⟩ := p
  simp only [kept, Fits, mk.injEq, ← Instruction.kept_eq_self_iff]
  constructor
  · intro h i hi
    exact List.map_inj_left.1 (h.trans (List.map_id is).symm) i hi
  · intro h
    exact (List.map_congr_left h).trans (List.map_id is)

theorem length_encode (l : Layout) (p : Program) : (p.encode l).length = p.length * l.width := by
  obtain ⟨is⟩ := p
  induction is with
  | nil => simp [encode, length]
  | cons i is ih =>
    have h : (encode l ⟨i :: is⟩) = i.encode l ++ encode l ⟨is⟩ := by simp [encode]
    rw [h, List.length_append, ih, Instruction.length_encode, length, length, List.length_cons, Nat.succ_mul,
      Nat.add_comm]

/-- Instructions that are spelled out are read back one by one. -/
theorem decodeFrom_encode (hl : l.Valid) (index : Nat) (is : List Instruction) :
    decodeFrom l index is.length (is.map (·.encode l)).flatten = .ok (is.map (·.kept l)) := by
  induction is generalizing index with
  | nil => rfl
  | cons i is ih =>
    rw [List.map_cons, List.flatten_cons, List.length_cons, decodeFrom,
      List.take_left' (Instruction.length_encode l i), List.drop_left' (Instruction.length_encode l i),
      Instruction.decode_encode hl, ih]
    rfl

/-- A program is read back with the low bytes of its fields. -/
theorem decode_encode (hl : l.Valid) (p : Program) : decode l (p.encode l) = .ok (p.kept l) := by
  rw [decode, length_encode, if_pos (Nat.mul_mod_left _ _), Nat.mul_div_cancel _ hl.width_pos]
  have h := decodeFrom_encode hl 0 p.instructions
  rw [length, encode, h]
  rfl

/-- **Reading undoes spelling, up to the bytes of the fields.** A program of any fields is read back with the same opcodes
and every other field modulo `256` to the number of its bytes. So it is read back as it was exactly if its fields fit,
and programs whose fields fit are spelled differently if they differ. -/
theorem encode_round_trip (hl : l.Valid) (p : Program) :
    decode l (p.encode l) = .ok ⟨p.instructions.map fun i =>
      { opcode := i.opcode
        flags := .ofNat (i.flags.toNat % 256 ^ l.flags)
        length := .ofNat (i.length.toNat % 256 ^ l.length)
        memAddr := .ofNat (i.memAddr.toNat % 256 ^ l.memAddr)
        padAddr := .ofNat (i.padAddr.toNat % 256 ^ l.padAddr) }⟩ ∧
    (decode l (p.encode l) = .ok p ↔ p.Fits l) ∧
    ∀ q : Program, p.Fits l → q.Fits l → p.encode l = q.encode l → p = q := by
  have hback : ∀ q : Program, decode l (q.encode l) = .ok q ↔ q.Fits l := by
    intro q
    rw [decode_encode hl, Except.ok.injEq, kept_eq_self_iff]
  refine ⟨decode_encode hl p, hback p, ?_⟩
  intro q hp hq heq
  have hpq : (Except.ok p : Except DecodeError Program) = .ok q := by
    rw [← (hback p).2 hp, ← (hback q).2 hq, heq]
  exact Except.ok.inj hpq

/-- In the default layout a length has two bytes and a flag one. -/
theorem encode_round_trip_oversized :
    Layout.Valid {} ∧
    decode {} (encode {} ⟨[.readHost 5 6 65537, { opcode := .multiply, flags := 258 }]⟩) =
      .ok ⟨[.readHost 5 6 1, { opcode := .multiply, flags := 2 }]⟩ ∧
    decode {} (encode {} ⟨[.readHost 5 6 65535]⟩) = .ok ⟨[.readHost 5 6 65535]⟩ := by
  have hl : Layout.Valid {} := by decide
  have hfits : Fits {} ⟨[.readHost 5 6 65535]⟩ := by
    intro i hi
    obtain rfl := List.mem_singleton.1 hi
    exact ⟨by decide, by decide, by decide, by decide⟩
  refine ⟨hl, ?_, (encode_round_trip hl _).2.1.2 hfits⟩
  rw [(encode_round_trip hl _).1]
  decide

end Systolic.Program
