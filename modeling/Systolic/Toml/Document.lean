import Systolic.Toml.Node
import Systolic.Toml.Number

/-!
# Documents

Values nest through arrays and inline tables, to a limited depth. A document is a block of assignments and then, header
by header, the blocks of its tables.
-/

namespace Systolic.Toml

namespace Document

open Reader Lexeme

/-! ## Values -/

/-- An array of `item`s. A comma may follow the last one. -/
def array (item : Reader Value) : Reader Value := do
  exactly "["
  let items ← maybe (separated ',' (filler *> item <* filler))
  if items.isSome then discard (maybe (exactly ","))
  filler
  exactly "]"
  return .array (items.getD [])

/-- A dotted key and an `item` with an equals sign between them. -/
def assignment (item : Reader Value) : Reader Assignment := do
  let (path, key) ← dottedKey
  exactly "="
  space
  return ⟨path, key, ← item⟩

/-- A table on one line, with no comma after the last assignment. -/
def inlineTable (item : Reader Value) : Reader Value := do
  exactly "\x7b"
  let assignments ← maybe (separated ',' (assignment item <* space))
  space
  exactly "\x7d"
  match Entries.fill [] (assignments.getD []) with
  | some entries => return .table (entryValues entries)
  | none => failure

/-- A value without parts. -/
def scalar : Reader Value :=
  (do return .text (← string)) <|> (do exactly "true"; return .boolean true) <|>
    (do exactly "false"; return .boolean false) <|> (do return .moment (← Number.moment Offset.isClock)) <|>
    (do return .float (← Number.float)) <|> (do return .integer (← Number.integer))

/-- A value in which arrays and inline tables nest to at most so many levels. -/
def value : Nat → Reader Value
  | 0 => scalar
  | depth + 1 => array (value depth) <|> inlineTable (value depth) <|> scalar

def depthLimit : Nat := 79

/-! ## Lines -/

/-- An assignment on a line of its own. -/
def assignmentLine : Reader Assignment := assignment (value depthLimit) <* lineEnd

/-- A line with nothing on it but space and a comment. It takes at least one character. -/
def blankLine : Reader Unit := do
  discard (maybe comment)
  newline <|> done

/-- Assignments up to the next header. -/
def block : Reader (List Assignment) := do
  let lines ← many do
    space
    (do blankLine; return none) <|> (do return some (← assignmentLine))
  return lines.filterMap id

def header : Reader Header := do
  space
  let (appends, (path, key)) ←
    (do exactly "[["; let key ← dottedKey; exactly "]]"; return (true, key)) <|>
    (do exactly "["; let key ← dottedKey; exactly "]"; return (false, key))
  lineEnd
  return ⟨path, key, appends⟩

/-- A header with the assignments below it. -/
structure Part where
  header : Header
  body : List Assignment

/-- The assignments before the first header, then the parts. A byte order mark may come first. -/
def parts : Reader (List Assignment × List Part) := do
  discard (maybe (exactly "\ufeff"))
  let top ← block
  let parts ← many do return ⟨← header, ← block⟩
  space
  done
  return (top, parts)

/-- Add the parts in turn. -/
def assemble (entries : Entries) : List Part → Option Entries
  | [] => some entries
  | part :: rest => (Entries.define part.header part.body part.header.path entries).bind (assemble · rest)

end Document

/-- The top-level entries of a document, if it is well formed. -/
def Document.parse? (text : List Char) : Option (List (String × Value)) := do
  let ((top, parts), _) ← Document.parts text
  let entries ← Entries.fill [] top
  return entryValues (← Document.assemble entries parts)

end Systolic.Toml
