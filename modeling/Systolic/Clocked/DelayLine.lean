/-!
# Delay lines

Registers in series. What enters in cycle `t` leaves `length` cycles later; a line without registers is a plain
connection. Register 0 is nearest the input.
-/

namespace Systolic

/-- A chain of registers, the one nearest the input first. -/
structure DelayLine (α : Type) where
  regs : List α
  deriving DecidableEq

namespace DelayLine

variable {α : Type}

/-- A line of `length` registers at power-on. -/
def idle [Inhabited α] (length : Nat) : DelayLine α := ⟨List.replicate length default⟩

def length (line : DelayLine α) : Nat := line.regs.length

/-- What leaves the line in a cycle in which `input` is presented. -/
def output (line : DelayLine α) (input : α) : α := line.regs.getLast?.getD input

/-- The registers after a clock edge that captures `input`. -/
def shift (line : DelayLine α) (input : α) : DelayLine α := ⟨(input :: line.regs).dropLast⟩

/-- Every register back at its power-on value. -/
def clear [Inhabited α] (line : DelayLine α) : DelayLine α := idle line.length

@[simp] theorem length_idle [Inhabited α] (n : Nat) : (idle n : DelayLine α).length = n := by
  simp [idle, length]

@[simp] theorem length_shift (line : DelayLine α) (input : α) : (line.shift input).length = line.length := by
  simp [shift, length]

@[simp] theorem length_clear [Inhabited α] (line : DelayLine α) : line.clear.length = line.length := by
  simp [clear]

@[simp] theorem clear_idle [Inhabited α] (n : Nat) : (idle n : DelayLine α).clear = idle n := by
  rw [clear, length_idle]

@[simp] theorem clear_shift [Inhabited α] (line : DelayLine α) (input : α) : (line.shift input).clear = line.clear := by
  rw [clear, clear, length_shift]

@[simp] theorem clear_clear [Inhabited α] (line : DelayLine α) : line.clear.clear = line.clear := by
  rw [clear, length_clear, clear]

/-- A line without registers passes its input through. -/
theorem output_of_length_eq_zero {line : DelayLine α} (h : line.length = 0) (input : α) :
    line.output input = input := by
  have : line.regs = [] := List.length_eq_zero_iff.1 h
  simp [output, this]

/-- After an edge, register 0 holds the input and every other register what stood before it. -/
theorem getElem?_regs_shift (line : DelayLine α) (input : α) (i : Nat) :
    (line.shift input).regs[i]? = if i < line.length then (input :: line.regs)[i]? else none := by
  simp only [shift, length, List.getElem?_dropLast, List.length_cons, Nat.add_sub_cancel]
  rfl

end DelayLine

end Systolic
