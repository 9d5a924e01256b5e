/-!
# Chip parameters

A chip is an `N × N` array of multiply-accumulate cells with its memories. `Chip` holds the sizes, `Chip.flaw?` names the
first thing wrong with them, and `Chip.Valid` says what a sound set is (`flaw?_eq_none_iff`).
-/

namespace Systolic

/-- Byte widths of the instruction fields, in the order in which they are written. -/
structure Layout where
  opcode : Nat := 1
  flags : Nat := 1
  length : Nat := 2
  memAddr : Nat := 8
  padAddr : Nat := 2
  deriving DecidableEq

namespace Layout

def widths (l : Layout) : List Nat := [l.opcode, l.flags, l.length, l.memAddr, l.padAddr]

/-- Bytes of one instruction. -/
def width (l : Layout) : Nat := l.opcode + l.flags + l.length + l.memAddr + l.padAddr

/-- Every field has between one and eight bytes. -/
def Valid (l : Layout) : Prop := ∀ w ∈ l.widths, 1 ≤ w ∧ w ≤ 8

/-- The layout as it is quoted in messages. -/
def describe (l : Layout) : String :=
  s!"InstructionLayout \x7b opcode_bytes: {l.opcode}, flags_bytes: {l.flags}, length_bytes: {l.length}, " ++
    s!"host_addr_bytes: {l.memAddr}, ub_addr_bytes: {l.padAddr} \x7d"

end Layout

/-- What a machine does with a timing hazard: go on silently, go on and report it, or abort the cycle. -/
inductive HazardPolicy
  | ignore
  | warn
  | fail
  deriving DecidableEq

namespace HazardPolicy

def name : HazardPolicy → String
  | ignore => "ignore"
  | warn => "warn"
  | fail => "fail"

def all : List HazardPolicy := [ignore, warn, fail]

def ofName? (s : String) : Option HazardPolicy := all.find? (·.name == s)

theorem ofName?_name (p : HazardPolicy) : ofName? p.name = some p := by cases p <;> decide

end HazardPolicy

/-- The parameters of a chip. -/
structure Chip where
  /-- `N`: the array is `N × N` and every row is `N` elements wide. -/
  size : Nat := 8
  /-- Bits of a scratchpad, host or weight element. -/
  dataWidth : Nat := 8
  /-- Bits of a partial sum and of an accumulator. -/
  accWidth : Nat := 32
  padRows : Nat := 256
  accRows : Nat := 256
  hostRows : Nat := 1024
  tiles : Nat := 64
  burstBytes : Nat := 64
  /-- Cycles between a weight request and the first burst. -/
  latency : Nat := 2
  policy : HazardPolicy := .fail
  layout : Layout := {}
  deriving DecidableEq

namespace Chip

/-- What can be wrong with a set of parameters. -/
inductive Flaw
  | size (got : Nat)
  | dataWidth (got : Nat)
  | accWidth (least got : Nat)
  | empty (field : String)
  | burst (bytes bits : Nat)
  | noOpcodeOrFlags
  | fieldWidth (layout : Layout)
  deriving DecidableEq

/-- What is wrong, in words. -/
def Flaw.detail : Flaw → String
  | size got => s!"matrix_size must be at least 4, got {got}"
  | dataWidth got => s!"data_width must be in 4..=32, got {got}"
  | accWidth least got => s!"acc_width must be in {least}..=63, got {got}"
  | empty field => s!"{field} cannot be zero"
  | burst bytes bits => s!"burst_bytes ({bytes}) must hold a whole number of {bits}-bit elements"
  | noOpcodeOrFlags => "opcode and flags fields need at least one byte"
  | fieldWidth layout => s!"instruction field widths must be 1..=8 bytes: {layout.describe}"

def Flaw.message (f : Flaw) : String := s!"invalid configuration: {f.detail}"

/-- The first flaw of `c`, in the order in which the parameters are checked. A data element has at least four bits, so
that the control tags `1..=4` fit in it. -/
def flaw? (c : Chip) : Option Flaw :=
  if c.size < 4 then some (.size c.size)
  else if c.dataWidth < 4 ∨ 32 < c.dataWidth then some (.dataWidth c.dataWidth)
  else if c.accWidth < c.dataWidth ∨ 63 < c.accWidth then some (.accWidth c.dataWidth c.accWidth)
  else if c.padRows = 0 then some (.empty "ub_rows")
  else if c.accRows = 0 then some (.empty "acc_rows")
  else if c.hostRows = 0 then some (.empty "host_rows")
  else if c.tiles = 0 then some (.empty "weight_tiles")
  else if c.burstBytes * 8 = 0 ∨ c.burstBytes * 8 % c.dataWidth ≠ 0 then some (.burst c.burstBytes c.dataWidth)
  else if c.layout.opcode = 0 ∨ c.layout.flags = 0 then some .noOpcodeOrFlags
  else if c.layout.widths.any (fun w => w = 0 ∨ 8 < w) then some (.fieldWidth c.layout)
  else none

/-- Parameters a machine can be built from. -/
structure Valid (c : Chip) : Prop where
  size : 4 ≤ c.size
  dataWidth : 4 ≤ c.dataWidth ∧ c.dataWidth ≤ 32
  accWidth : c.dataWidth ≤ c.accWidth ∧ c.accWidth ≤ 63
  padRows : 0 < c.padRows
  accRows : 0 < c.accRows
  hostRows : 0 < c.hostRows
  tiles : 0 < c.tiles
  burst : 0 < c.burstBytes ∧ c.dataWidth ∣ c.burstBytes * 8
  layout : c.layout.Valid

private theorem ite_some_eq_none_iff {α : Type} {p : Prop} [Decidable p] {a : α} {o : Option α} :
    (if p then some a else o) = none ↔ ¬ p ∧ o = none := by
  split <;> simp [*]

/-- Nothing is found wrong with exactly the sound parameters. -/
theorem flaw?_eq_none_iff {c : Chip} : c.flaw? = none ↔ c.Valid := by
  have hdvd : c.dataWidth ∣ c.burstBytes * 8 ↔ c.burstBytes * 8 % c.dataWidth = 0 := Nat.dvd_iff_mod_eq_zero
  have hl : c.layout.Valid ↔ ¬ (c.layout.widths.any (fun w => w = 0 ∨ 8 < w) = true) := by
    simp only [Layout.Valid, List.any_eq_true, decide_eq_true_eq, not_exists, not_and]
    exact forall_congr' fun w => imp_congr_right fun _ => by omega
  constructor
  · intro h
    simp only [flaw?, ite_some_eq_none_iff, and_true] at h
    obtain ⟨h1, h2, h3, h4, h5, h6, h7, h8, -, h10⟩ := h
    exact ⟨by omega, by omega, by omega, by omega, by omega, by omega, by omega, ⟨by omega, hdvd.2 (by omega)⟩, hl.2 h10⟩
  · rintro ⟨h1, h2, h3, h4, h5, h6, h7, ⟨h8, h8'⟩, h9⟩
    have hop : c.layout.opcode ≠ 0 ∧ c.layout.flags ≠ 0 := by
      have h := h9 c.layout.opcode (by simp [Layout.widths])
      have h' := h9 c.layout.flags (by simp [Layout.widths])
      omega
    simp only [flaw?, ite_some_eq_none_iff, and_true]
    exact ⟨by omega, by omega, by omega, by omega, by omega, by omega, by omega,
      by have := hdvd.1 h8'; omega, by omega, hl.1 h9⟩

end Chip

end Systolic
