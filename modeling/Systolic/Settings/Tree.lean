import Systolic.Keyed
import Systolic.Number.Double
import Systolic.Toml.Value

/-!
# Settings trees

What the layers of a configuration are merged into. A layer's group adds to the group that is there, name by name; any
other value takes the place of what was there. Names count in either case, and what is merged keeps them in lower case;
groups inside a list are no layers and stay as they are.
-/

namespace Systolic.Settings

inductive Tree
  /-- Left open. -/
  | nothing
  | flag (b : Bool)
  | integer (n : Int)
  | real (x : Double)
  | text (s : String)
  | list (items : List Tree)
  | group (members : List (String × Tree))

namespace Tree

/-- `s` with its ASCII letters in lower case, which is what the names of all settings are made of. -/
def lower (s : String) : String := s.map Char.toLower

/-- The members of a group; anything else has none. -/
def members : Tree → Keyed Tree
  | group members => members
  | _ => []

/-- The items of a list; anything else has none. -/
def items : Tree → List Tree
  | list items => items
  | _ => []

mutual

/-- What `old` becomes when `new` is laid over it. -/
def merge (old : Option Tree) : Tree → Tree
  | group members => mergeMembers (old.getD (group [])) members
  | new => new

/-- Lay members over `old`, which the first of them makes a group. -/
def mergeMembers (old : Tree) : List (String × Tree) → Tree
  | [] => old
  | new :: rest =>
    let name := lower new.1
    mergeMembers (group (Keyed.put name (merge (Keyed.get? name old.members) new.2) old.members)) rest

end

mutual

/-- A document's value as a tree; moments count as their texts. -/
def ofToml : Toml.Value → Tree
  | .text s => text s
  | .integer n => integer n
  | .float x => real x
  | .boolean b => flag b
  | .moment m => text m.text
  | .array items => list (ofItems items)
  | .table entries => group (ofEntries entries)

def ofItems : List Toml.Value → List Tree
  | [] => []
  | item :: rest => ofToml item :: ofItems rest

def ofEntries : List (String × Toml.Value) → List (String × Tree)
  | [] => []
  | e :: rest => (e.1, ofToml e.2) :: ofEntries rest

end

end Tree

end Systolic.Settings
