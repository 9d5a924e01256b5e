import Systolic.Toml.Number

/-!
# Marked tables

A table whose first key is the mark of a moment stands for the moment that the text under the mark spells, whatever else
it holds. `Value.unmarked?` puts the moments in their places.
-/

namespace Systolic.Toml

/-- The key that marks a table as a moment. -/
def momentMark : String := "$__toml_private_datetime"

namespace Value

/-- A text that spells a moment from end to end. Its offset may be any up to a day. -/
def momentOfText? (s : String) : Option Moment :=
  ((Number.moment Offset.isWithinDay <* Reader.done) s.toList).map (·.1)

/-- The value under the mark, if the entries begin with it. -/
def marked? : List (String × Value) → Option Value
  | (key, v) :: _ => if key = momentMark then some v else none
  | [] => none

/-- The moment that a value under the mark spells; only a text spells one. -/
def spelled? : Value → Option Value
  | text s => (momentOfText? s).map moment
  | _ => none

mutual

/-- The value with moments for its marked tables; nothing if one of them spells no moment. -/
def unmarked? : Value → Option Value
  | array items => (unmarkedItems? items).map array
  | table entries =>
    match marked? entries with
    | some v => spelled? v
    | none => (unmarkedEntries? entries).map table
  | v => some v

def unmarkedItems? : List Value → Option (List Value)
  | [] => some []
  | v :: rest => do return (← unmarked? v) :: (← unmarkedItems? rest)

def unmarkedEntries? : List (String × Value) → Option (List (String × Value))
  | [] => some []
  | e :: rest => do return (e.1, ← unmarked? e.2) :: (← unmarkedEntries? rest)

end

end Value

end Systolic.Toml
