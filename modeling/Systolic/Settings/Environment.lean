import Systolic.Settings.Tree

/-!
# Settings from the environment

The variables that begin with `TPUSIM__`, in either case, set the places that the rest of their names spell, with two
underscores between the names on the way. A value that reads as a truth value or as a number is one.
-/

namespace Systolic.Settings.Environment

/-- The variables, each with its value. -/
abbrev Variables := List (String × String)

def marker : List Char := "tpusim__".toList

/-- The text with a dot for every two underscores. -/
def dotted : List Char → List Char
  | '_' :: '_' :: rest => '.' :: dotted rest
  | c :: rest => c :: dotted rest
  | [] => []

/-- The key that a variable sets, if it sets one. -/
def key? (name : String) : Option String :=
  let name := name.toList.map Char.toLower
  if marker.isPrefixOf name then some (.ofList (dotted (name.drop marker.length))) else none

/-- What a variable's text says: a truth value, a whole number, any other number, or else itself. -/
def value (text : String) : Tree :=
  let lower := text.map Char.toLower
  if lower = "true" then .flag true
  else if lower = "false" then .flag false
  else
    match Decimal.signed64? text.toList with
    | some n => .integer n
    | none =>
      match Double.parse? text.toList with
      | some x => .real x
      | none => .text text

/-- The layer that the variables make. -/
def entries (env : Variables) : List (String × Tree) :=
  env.filterMap fun (name, text) => (key? name).map fun key => (key, value text)

end Systolic.Settings.Environment
