/-!
# Strings as they are written

A string is written in the plainest of its forms: between double quotes if nothing in it needs an escape, else between
single quotes, else between three double or three single quotes, and with escapes only if no other form can hold it.
-/

namespace Systolic.Toml.Quoted

/-- The length of the longest run of `quote`. -/
def longestRun (quote : Char) (text : List Char) : Nat :=
  (text.foldl (fun (longest, current) c =>
    if c = quote then (max longest (current + 1), current + 1) else (longest, 0)) (0, 0)).1

/-- Control characters that have no place in any form without escapes. -/
def needsCode (c : Char) : Bool := (c < ' ' ∧ c ≠ '\t' ∧ c ≠ '\n') ∨ c = '\x7f'

/-- The escape of a control character without a letter of its own. -/
def code (c : Char) : List Char :=
  let digits := (Nat.toDigits 16 c.toNat).map Char.toUpper
  ['\\', 'u'] ++ List.replicate (4 - digits.length) '0' ++ digits

/-- A character between double quotes. -/
def escaped (c : Char) : List Char :=
  if c = '\x08' then ['\\', 'b']
  else if c = '\t' then ['\\', 't']
  else if c = '\n' then ['\\', 'n']
  else if c = '\x0c' then ['\\', 'f']
  else if c = '\r' then ['\\', 'r']
  else if c = '"' then ['\\', '"']
  else if c = '\\' then ['\\', '\\']
  else if needsCode c then code c
  else [c]

/-- The characters between three double quotes: line ends stand for themselves, and so do up to two quotes in a row;
`run` counts the ones before. -/
def escapedLines (run : Nat) : List Char → List Char
  | [] => []
  | '\n' :: rest => '\n' :: escapedLines 0 rest
  | '"' :: rest => if run < 2 then '"' :: escapedLines (run + 1) rest else '\\' :: '"' :: escapedLines 0 rest
  | c :: rest => escaped c ++ escapedLines 0 rest

/-- Three quotes around a body; a body with line ends begins on a line of its own. -/
def tripled (quote : Char) (body : List Char) : List Char :=
  let quotes := [quote, quote, quote]
  quotes ++ (if body.contains '\n' then ['\n'] else []) ++ body ++ quotes

/-- The written form of a string. -/
def encode (text : List Char) : List Char :=
  let codes := text.any needsCode
  let lines := text.contains '\n'
  let backslash := text.contains '\\'
  let doubles := longestRun '"' text
  let singles := longestRun '\'' text
  if !codes && !backslash && !lines && doubles == 0 then ['"'] ++ text.flatMap escaped ++ ['"']
  else if !codes && !lines && singles == 0 then ['\''] ++ text ++ ['\'']
  else if !codes && !backslash && doubles ≤ 2 then tripled '"' (escapedLines 0 text)
  else if !codes && singles ≤ 2 then tripled '\'' text
  else if lines then tripled '"' (escapedLines 0 text)
  else ['"'] ++ text.flatMap escaped ++ ['"']

end Systolic.Toml.Quoted
