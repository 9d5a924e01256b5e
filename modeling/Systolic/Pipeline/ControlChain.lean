import Systolic.Chip.Basic
import Systolic.Clocked.Wire
import Systolic.Pipeline.Signal
import Systolic.Storage.Accumulator

/-!
# The accumulator control chain

Sums leave the array one cycle later with every column. The control of a row follows them: column 0 acts on it as it
arrives, and `hops` hand it on to one column after the other.
-/

namespace Systolic

structure ControlChain where
  /-- Hop `c` feeds column `c + 1`. -/
  hops : List (Wire AccControl)
  deriving DecidableEq

namespace ControlChain

structure Output where
  writes : List AccStore.Write
  /-- The last column took the last row of a multiplication. -/
  done : Bool
  deriving DecidableEq

/-- The chain behind `size` columns, at power-on. -/
def idle (size : Nat) : ControlChain := ⟨List.replicate (size - 1) .idle⟩

variable (chain : ControlChain)

/-- The control that column `c` acts on while `control` arrives. -/
def at? (control : Wire AccControl) (c : Nat) : Option AccControl := (control :: chain.hops)[c]?.bind (·.get?)

/-- The write of column `c` for its sum: replacing, or adding to what the store holds. -/
def write (accWidth : Nat) (store : AccStore) (c : Nat) (sum : Word) (control : AccControl) : AccStore.Write :=
  ⟨c, control.accAddr,
    if control.overwrite then sum else Word.wrap accWidth (store.read c control.accAddr + sum)⟩

/-- One cycle: `sums` leave the array, one for each column. -/
def step (accWidth : Nat) (control : Wire AccControl) (sums : Row) (store : AccStore) : ControlChain × Output :=
  ({ hops := (control :: chain.hops).dropLast },
    { writes := (sums.mapIdx fun c sum => (chain.at? control c).map (write accWidth store c sum)).filterMap id
      done := 0 < sums.length && (chain.at? control (sums.length - 1)).any (·.last) })

/-- No control left on any hop. -/
def clear : ControlChain := ⟨chain.hops.map .clear⟩

/-- The columns write from left to right. -/
theorem writes_step (accWidth : Nat) (control : Wire AccControl) (sums : Row) (store : AccStore) :
    (chain.step accWidth control sums store).2.writes = (List.range sums.length).filterMap fun c =>
      (chain.at? control c).map (write accWidth store c (sums.getD c 0)) := by
  rw [step, Row.mapIdx_eq_map_range, List.filterMap_map]
  rfl

end ControlChain

end Systolic
