/-!
# File paths

Paths with slashes between their parts. Slashes in a row are one, and a single dot stands for the directory it is in.
-/

namespace Systolic.Text.Path

def isAbsolute (path : String) : Bool := path.toList.head? = some '/'

/-- `path` as seen from the directory `root`. -/
def join (root path : String) : String :=
  if isAbsolute path ∨ root.isEmpty then path
  else if root.toList.getLast? = some '/' then root ++ path
  else root ++ "/" ++ path

/-- A path read from its end, without the slashes and single dots after its last name. -/
def fromLastName : List Char → List Char
  | '/' :: rest => fromLastName rest
  | '.' :: '/' :: rest => fromLastName rest
  | path => path

/-- The path with `ending` after its last name, which is the end of the result. Dots for a directory are no name. -/
def withEnding? (ending path : String) : Option String :=
  let path := fromLastName path.toList.reverse
  if [[], ['.'], ['.', '.']].contains (path.takeWhile (· ≠ '/')) then none
  else some (.ofList path.reverse ++ ending)

end Systolic.Text.Path
