import Systolic.Settings.Tree

/-!
# Places in a settings tree

A place is written as names with dots between them, and an index in brackets picks an item of a list. Setting a place
makes groups and lists of everything on the way to it.
-/

namespace Systolic.Settings

/-- A step towards a place. -/
inductive Step
  | member (name : String)
  /-- A negative index counts from the end of the list. -/
  | item (index : Int)
  deriving DecidableEq

abbrev Place := List Step

namespace Place

/-! ## Reading -/

def isNameChar (c : Char) : Bool := c.isAlphanum ∨ c = ' ' ∨ c = '_' ∨ c = '-'

def isSpace (c : Char) : Bool := c = ' ' ∨ c = '\t'

def isIndexChar (c : Char) : Bool := c = '-' ∨ c.isDigit

/-- The rest of a place after its first name; `fuel` bounds the steps. -/
def parseSteps? : Nat → List Char → Option Place
  | _, [] => some []
  | 0, _ => none
  | fuel + 1, '.' :: text =>
    let name := text.takeWhile isNameChar
    if name.isEmpty then none
    else (parseSteps? fuel (text.dropWhile isNameChar)).map (.member (.ofList name) :: ·)
  | fuel + 1, '[' :: text =>
    let body := text.dropWhile isSpace
    match (body.dropWhile isIndexChar).dropWhile isSpace with
    | ']' :: rest =>
      match Decimal.signed64? (body.takeWhile isIndexChar) with
      | some index => (parseSteps? fuel rest).map (.item index :: ·)
      | none => none
    | _ => none
  | _ + 1, _ => none

/-- The place that a text names. Every step takes a character at least. -/
def parse? (text : List Char) : Option Place :=
  let name := text.takeWhile isNameChar
  if name.isEmpty then none
  else (parseSteps? text.length (text.dropWhile isNameChar)).map (.member (.ofList name) :: ·)

/-- The place that a key in either case stands for; a key that names none is one name as a whole. -/
def ofKey (key : String) : Place :=
  let key := Tree.lower key
  (parse? key.toList).getD [.member key]

end Place

namespace Tree

/-- The items of `items` with one more place open for each that is missing before `index`. -/
def extended (items : List Tree) (index : Nat) : List Tree :=
  items ++ List.replicate (index + 1 - items.length) nothing

/-- The position of an index in a list of so many items. -/
def position (length : Nat) (index : Int) : Nat :=
  if 0 ≤ index then index.toNat else length - index.natAbs

/-- Lay `value` over what stands at a place. -/
def set (value : Tree) : Place → Tree → Tree
  | [], _ => value
  | [.member name], t => group (Keyed.put name (merge (Keyed.get? name t.members) value) t.members)
  | .member name :: rest, t =>
    group (Keyed.put name (set value rest ((Keyed.get? name t.members).getD nothing)) t.members)
  | .item index :: rest, t =>
    let i := position t.items.length index
    let items := extended t.items i
    list (items.set i (set value rest (items.getD i nothing)))

/-- Lay the entries of a layer over a tree, each at the place that its key stands for. -/
def layer (entries : List (String × Tree)) (t : Tree) : Tree :=
  entries.foldl (fun t e => set e.2 (Place.ofKey e.1) t) t

end Tree

end Systolic.Settings
