/-!
# Wires

A wire carries a value together with a flag that says whether the value counts this cycle. Clearing a wire drops the
flag only: the value stays on the line until it is driven again, and `get?` never shows it.
-/

namespace Systolic

/-- A signal between two units. -/
structure Wire (α : Type) where
  value : α
  valid : Bool
  deriving DecidableEq

namespace Wire

variable {α : Type}

/-- A wire nobody has driven yet. -/
def idle [Inhabited α] : Wire α := ⟨default, false⟩

/-- A wire that carries `v` this cycle. -/
def drive (v : α) : Wire α := ⟨v, true⟩

/-- The wire with its flag dropped. -/
def clear (w : Wire α) : Wire α := { w with valid := false }

/-- What the wire carries this cycle. -/
def get? (w : Wire α) : Option α := if w.valid then some w.value else none

/-- The wire that carries `v?`. -/
def ofOption [Inhabited α] : Option α → Wire α
  | some v => drive v
  | none => idle

instance [Inhabited α] : Inhabited (Wire α) := ⟨idle⟩

@[simp] theorem get?_idle [Inhabited α] : (idle : Wire α).get? = none := rfl

@[simp] theorem get?_drive (v : α) : (drive v).get? = some v := rfl

@[simp] theorem get?_clear (w : Wire α) : w.clear.get? = none := rfl

@[simp] theorem get?_ofOption [Inhabited α] (v? : Option α) : (ofOption v?).get? = v? := by
  cases v? <;> rfl

end Wire

end Systolic
