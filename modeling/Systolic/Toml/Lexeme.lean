import Systolic.Toml.Reader

/-!
# Lexical elements

White space, line ends, comments, keys and strings.
-/

namespace Systolic.Toml.Lexeme

open Reader

/-! ## Space -/

def isSpace (c : Char) : Bool := c = ' ' ∨ c = '\t'

def space : Reader Unit := discard (run isSpace)

/-- A line feed, alone or after a carriage return. -/
def newline : Reader Unit := exactly "\n" <|> exactly "\r\n"

/-- Characters that comments and strings may hold: all but the control characters, of which the tab is allowed. -/
def isPlain (c : Char) : Bool := c = '\t' ∨ (' ' ≤ c ∧ c ≠ '\x7f')

def comment : Reader Unit := do
  exactly "#"
  discard (run isPlain)

/-- The end of a line that holds nothing more than a comment. -/
def lineEnd : Reader Unit := do
  space
  discard (maybe comment)
  newline <|> done

/-- One space, or the end of a line. -/
def gap : Reader Unit := discard (one isSpace) <|> newline

/-- Space, comments and line ends between the parts of an array. -/
def filler : Reader Unit := discard (many (gap <|> comment))

/-! ## Strings -/

def isHexDigit (c : Char) : Bool := c.isDigit ∨ ('a' ≤ c ∧ c ≤ 'f') ∨ ('A' ≤ c ∧ c ≤ 'F')

def digitValue (c : Char) : Nat :=
  if c.isDigit then c.toNat - '0'.toNat else if 'a' ≤ c then c.toNat - 'a'.toNat + 10 else c.toNat - 'A'.toNat + 10

/-- The number that digits spell to a base. -/
def number (base : Nat) (digits : List Char) : Nat := digits.foldl (fun n c => n * base + digitValue c) 0

/-- A character by its code, in so many hexadecimal digits. Codes that are no characters are refused. -/
def coded (digits : Nat) : Reader Char := do
  let code := number 16 (← exactRun isHexDigit digits)
  if code.isValidChar then return .ofNat code else failure

/-- The character that an escape stands for. -/
def escape : Reader Char := do
  exactly "\\"
  match ← one fun _ => true with
  | 'b' => return '\x08'
  | 't' => return '\t'
  | 'n' => return '\n'
  | 'f' => return '\x0c'
  | 'r' => return '\r'
  | '"' => return '"'
  | '\\' => return '\\'
  | 'u' => coded 4
  | 'U' => coded 8
  | _ => failure

def isBasic (c : Char) : Bool := isPlain c ∧ c ≠ '"' ∧ c ≠ '\\'

def isLiteral (c : Char) : Bool := isPlain c ∧ c ≠ '\''

/-- A string on one line, with escapes. -/
def basicString : Reader (List Char) := do
  exactly "\""
  let text ← many (one isBasic <|> escape)
  exactly "\""
  return text

/-- A string on one line, as it stands. -/
def literalString : Reader (List Char) := do
  exactly "'"
  let text ← run isLiteral
  exactly "'"
  return text

/-- A backslash at the end of a line, with all space and line ends that follow it. -/
def continuation : Reader Unit := do
  exactly "\\"
  space
  newline
  discard (many gap)

/-- One or two quotes that do not end the string, since no third quote follows them. -/
def inner (quote : Char) : Reader (List Char) := fun text =>
  match text with
  | a :: b :: c :: _ =>
    if a = quote ∧ b = quote ∧ c ≠ quote then some ([a, b], text.drop 2)
    else if a = quote ∧ b ≠ quote then some ([a], text.drop 1)
    else none
  | _ => none

/-- Three quotes, with up to two more in front of them that belong to the string. -/
def closing (quote : Char) : Reader (List Char) := do
  let quotes ← run (· = quote)
  if 3 ≤ quotes.length ∧ quotes.length ≤ 5 then return quotes.drop 3 else failure

/-- A string between triple quotes. A line end right after the opening does not count. -/
def multiline (quote : Char) (piece : Reader (List Char)) : Reader (List Char) := do
  exactly (.ofList [quote, quote, quote])
  discard (maybe newline)
  let pieces ← many (piece <|> (do newline; return ['\n']) <|> inner quote)
  let last ← closing quote
  return pieces.flatten ++ last

def multilineBasic : Reader (List Char) :=
  multiline '"' <|
    (do return [← one isBasic]) <|> (do continuation; return []) <|> (do return [← escape])

def multilineLiteral : Reader (List Char) := multiline '\'' (do return [← one isLiteral])

/-- A string of any of the four kinds. -/
def string : Reader String := do
  let text ← multilineBasic <|> basicString <|> multilineLiteral <|> literalString
  return .ofList text

/-! ## Keys -/

def isBareKey (c : Char) : Bool := c.isAlphanum ∨ c = '_' ∨ c = '-'

def simpleKey : Reader String := do
  let text ← basicString <|> literalString <|> run1 isBareKey
  return .ofList text

/-- The least count of keys that a dotted key may not have. -/
def keyLimit : Nat := 80

/-- A dotted key: the path and the last key. -/
def dottedKey : Reader (List String × String) := do
  let keys ← separated '.' do
    space
    let key ← simpleKey
    space
    return key
  match keys.getLast? with
  | some last => if keys.length < keyLimit then return (keys.dropLast, last) else failure
  | none => failure

end Systolic.Toml.Lexeme
