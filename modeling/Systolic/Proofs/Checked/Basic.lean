import Mathlib.Data.Nat.Bitwise
import Systolic.Proofs.Word.Wrap

/-!
# Partial operations

Indexing, slicing, dividing, subtracting unsigned numbers and shifting are partial on a real machine: out of range they
trap. `Checked` computations stop with the first trap. The rules of this module say when an operation does not trap and
what it then gives; a computation that meets all of them is a pure one (`Checked.mapM_ok`, `Word.tryWrap_eq`,
`Word.tryLow_eq`).
-/

namespace Systolic

/-- Why a computation cannot go on. -/
inductive Trap
  | index
  | slice
  | divisor
  | underflow
  | shift
  deriving DecidableEq

/-- A computation that may trap. -/
abbrev Checked (α : Type) := Except Trap α

namespace Checked

variable {α β : Type}

@[simp] theorem ok_bind (a : α) (f : α → Checked β) : (Except.ok a >>= f) = f a := rfl

@[simp] theorem pure_eq_ok (a : α) : (pure a : Checked α) = .ok a := rfl

/-- An alternative that does not trap. -/
theorem ite_ok {p : Prop} [Decidable p] {a b : α} {x : Checked α} (h : ¬ p → x = .ok b) :
    (if p then .ok a else x) = .ok (if p then a else b) := by
  split
  · rfl
  · exact h ‹_›

/-- A loop in which no step traps. -/
theorem mapM_ok {f : α → Checked β} {g : α → β} {l : List α} (h : ∀ a ∈ l, f a = .ok (g a)) :
    l.mapM f = .ok (l.map g) := by
  induction l with
  | nil => rfl
  | cons a l ih =>
    rw [List.mapM_cons, h a List.mem_cons_self, ih fun b hb => h b (List.mem_cons_of_mem a hb)]
    rfl

/-! ## Elements and slices -/

/-- The element that has been looked up. -/
def index (a? : Option α) : Checked α := a?.elim (.error .index) .ok

/-- Replace an element. -/
def put (l : List α) (i : Nat) (a : α) : Checked (List α) :=
  if i < l.length then .ok (l.set i a) else .error .index

/-- The elements from `start` up to `stop`. -/
def slice (l : List α) (start stop : Nat) : Checked (List α) :=
  if start ≤ stop ∧ stop ≤ l.length then .ok ((l.drop start).take (stop - start)) else .error .slice

/-- Overwrite the elements from `start` up to `stop` with as many others. -/
def splice (l : List α) (start stop : Nat) (new : List α) : Checked (List α) :=
  if start ≤ stop ∧ stop ≤ l.length ∧ new.length = stop - start then .ok (l.take start ++ new ++ l.drop stop)
  else .error .slice

@[simp] theorem index_some (a : α) : index (some a) = .ok a := rfl

theorem index_getElem {l : List α} {i : Nat} (h : i < l.length) : index l[i]? = .ok l[i] := by
  rw [List.getElem?_eq_getElem h, index_some]

theorem index_getD {l : List α} {i : Nat} (h : i < l.length) (d : α) : index l[i]? = .ok (l.getD i d) := by
  rw [index_getElem h, List.getD_eq_getElem l d h]

theorem put_eq {l : List α} {i : Nat} (h : i < l.length) (a : α) : put l i a = .ok (l.set i a) := if_pos h

theorem slice_eq {l : List α} {start stop : Nat} (h : start ≤ stop) (h' : stop ≤ l.length) :
    slice l start stop = .ok ((l.drop start).take (stop - start)) := if_pos ⟨h, h'⟩

theorem splice_eq {l new : List α} {start stop : Nat} (h : start ≤ stop) (h' : stop ≤ l.length)
    (hnew : new.length = stop - start) : splice l start stop new = .ok (l.take start ++ new ++ l.drop stop) :=
  if_pos ⟨h, h', hnew⟩

/-! ## Unsigned numbers -/

def sub (a b : Nat) : Checked Nat := if b ≤ a then .ok (a - b) else .error .underflow

def div (a b : Nat) : Checked Nat := if b = 0 then .error .divisor else .ok (a / b)

def mod (a b : Nat) : Checked Nat := if b = 0 then .error .divisor else .ok (a % b)

/-- Division, rounded up. -/
def divCeil (a b : Nat) : Checked Nat := if b = 0 then .error .divisor else .ok ((a + b - 1) / b)

theorem sub_eq {a b : Nat} (h : b ≤ a) : sub a b = .ok (a - b) := if_pos h

theorem div_eq {b : Nat} (h : 0 < b) (a : Nat) : div a b = .ok (a / b) := if_neg (Nat.ne_of_gt h)

theorem mod_eq {b : Nat} (h : 0 < b) (a : Nat) : mod a b = .ok (a % b) := if_neg (Nat.ne_of_gt h)

theorem divCeil_eq {b : Nat} (h : 0 < b) (a : Nat) : divCeil a b = .ok ((a + b - 1) / b) := if_neg (Nat.ne_of_gt h)

/-! ## Words -/

def subWord (a b : UInt64) : Checked UInt64 := if b ≤ a then .ok (a - b) else .error .underflow

def shiftLeft (v : Word) (k : Nat) : Checked Word := if k < 64 then .ok (v <<< Int64.ofNat k) else .error .shift

def shiftRight (v : Word) (k : Nat) : Checked Word := if k < 64 then .ok (v >>> Int64.ofNat k) else .error .shift

def shiftLeftUnsigned (v : UInt64) (k : Nat) : Checked UInt64 :=
  if k < 64 then .ok (v <<< UInt64.ofNat k) else .error .shift

/-- One less than a count, while more than one is left. -/
def oneLess? (n : UInt64) : Checked (Option UInt64) := do
  if 1 < n then
    let left ← subWord n 1
    return some left
  return none

theorem subWord_eq {a b : UInt64} (h : b ≤ a) : subWord a b = .ok (a - b) := if_pos h

theorem oneLess?_eq (n : UInt64) : oneLess? n = .ok (if 1 < n then some (n - 1) else none) := by
  unfold oneLess?
  split
  · rw [subWord_eq (UInt64.le_of_lt ‹1 < n›)]
    rfl
  · rfl

theorem shiftLeft_eq {k : Nat} (h : k < 64) (v : Word) : shiftLeft v k = .ok (v <<< Int64.ofNat k) := if_pos h

theorem shiftRight_eq {k : Nat} (h : k < 64) (v : Word) : shiftRight v k = .ok (v >>> Int64.ofNat k) := if_pos h

theorem shiftLeftUnsigned_eq {k : Nat} (h : k < 64) (v : UInt64) :
    shiftLeftUnsigned v k = .ok (v <<< UInt64.ofNat k) := if_pos h

end Checked

namespace Word

open Checked

/-- The low `bits` bits as a signed number, shift by shift. -/
def tryWrap (bits : Nat) (v : Word) : Checked Word := do
  let shift ← sub 64 bits
  let up ← shiftLeft v shift
  shiftRight up shift

/-- The low `bits` bits as an unsigned number, through a mask. -/
def tryLow (bits : Nat) (v : Word) : Checked UInt64 := do
  if 64 ≤ bits then
    return v.toUInt64
  let bit ← shiftLeftUnsigned 1 bits
  let mask ← subWord bit 1
  return v.toUInt64 &&& mask

theorem tryWrap_eq {bits : Nat} (h0 : 0 < bits) (h1 : bits ≤ 64) (v : Word) : tryWrap bits v = .ok (wrap bits v) := by
  have hshift : 64 - bits < 64 := by omega
  simp only [tryWrap, sub_eq h1, shiftLeft_eq hshift, shiftRight_eq hshift, ok_bind, wrap]

theorem toNat_one_shiftLeft {bits : Nat} (h : bits < 64) : ((1 : UInt64) <<< UInt64.ofNat bits).toNat = 2 ^ bits := by
  have hlt : 2 ^ bits < 2 ^ 64 := Nat.pow_lt_pow_right (by decide) h
  have hbits : (UInt64.ofNat bits).toNat = bits := by
    apply UInt64.toNat_ofNat_of_lt
    exact Nat.lt_trans h (by decide)
  rw [UInt64.toNat_shiftLeft, hbits, Nat.mod_eq_of_lt h, Nat.shiftLeft_eq, UInt64.toNat_one, Nat.one_mul]
  exact Nat.mod_eq_of_lt hlt

theorem tryLow_eq (bits : Nat) (v : Word) : tryLow bits v = .ok (low bits v) := by
  unfold tryLow
  by_cases h : 64 ≤ bits
  · have hlt : v.toUInt64.toNat < 2 ^ bits :=
      Nat.lt_of_lt_of_le v.toUInt64.toNat_lt (Nat.pow_le_pow_right (by decide) h)
    rw [if_pos h]
    apply congrArg Except.ok
    rw [← UInt64.toNat_inj, toNat_low, Nat.mod_eq_of_lt hlt]
  · have hbit := toNat_one_shiftLeft (Nat.lt_of_not_le h)
    have hone : (1 : UInt64) ≤ (1 : UInt64) <<< UInt64.ofNat bits := by
      rw [UInt64.le_iff_toNat_le, hbit]
      exact Nat.two_pow_pos bits
    simp only [if_neg h, shiftLeftUnsigned_eq (Nat.lt_of_not_le h), subWord_eq hone, ok_bind, pure_eq_ok]
    apply congrArg Except.ok
    rw [← UInt64.toNat_inj, toNat_low, UInt64.toNat_and, UInt64.toNat_sub_of_le _ _ hone, hbit, UInt64.toNat_one,
      Nat.and_two_pow_sub_one_eq_mod]

end Word

end Systolic
