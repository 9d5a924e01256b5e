/-!
# Readers

A reader takes a front part of a text and gives what it stands for, or fails. Readers are composed with `do`; `many`
repeats one for as long as it succeeds and takes something, so that it comes to an end on every text.
-/

namespace Systolic.Toml

abbrev Reader := StateT (List Char) Option

namespace Reader

variable {α : Type}

/-- A character that satisfies `p`. -/
def one (p : Char → Bool) : Reader Char
  | c :: rest => if p c then some (c, rest) else none
  | [] => none

/-- Exactly the characters `word`. -/
def exactly (word : String) : Reader Unit := fun text =>
  if word.toList.isPrefixOf text then some ((), text.drop word.length) else none

/-- The longest front part whose characters satisfy `p`. -/
def run (p : Char → Bool) : Reader (List Char) := fun text => some (text.takeWhile p, text.dropWhile p)

/-- A front part that is not empty and whose characters satisfy `p`. -/
def run1 (p : Char → Bool) : Reader (List Char) := do
  let first ← one p
  let rest ← run p
  return first :: rest

/-- Exactly `count` characters that satisfy `p`. -/
def exactRun (p : Char → Bool) (count : Nat) : Reader (List Char) := fun text =>
  let front := text.take count
  if front.length = count ∧ front.all p then some (front, text.drop count) else none

/-- What `r` gives, or nothing where it fails. -/
def maybe (r : Reader α) : Reader (Option α) := fun text =>
  match r text with
  | some (a, rest) => some (some a, rest)
  | none => some (none, text)

/-- At most `fuel` repetitions. -/
def manyFor (r : Reader α) : Nat → List Char → List α × List Char
  | 0, text => ([], text)
  | fuel + 1, text =>
    match r text with
    | none => ([], text)
    | some (a, rest) =>
      if rest.length < text.length then
        let (more, rest) := manyFor r fuel rest
        (a :: more, rest)
      else ([], text)

/-- As many repetitions as succeed; each takes at least one character. -/
def many (r : Reader α) : Reader (List α) := fun text => some (manyFor r text.length text)

/-- One or more of `r` with `separator` between them. -/
def separated (separator : Char) (r : Reader α) : Reader (List α) := do
  let first ← r
  let rest ← many (one (· = separator) *> r)
  return first :: rest

/-- The characters that `r` takes. -/
def spelling (r : Reader α) : Reader (List Char) := fun text =>
  match r text with
  | some (_, rest) => some (text.take (text.length - rest.length), rest)
  | none => none

/-- Nothing is left. -/
def done : Reader Unit
  | [] => some ((), [])
  | _ :: _ => none

/-- What a run takes and what it leaves make up the text. -/
theorem run_append (p : Char → Bool) (text front rest : List Char) (h : run p text = some (front, rest)) :
    front ++ rest = text := by
  simp only [run, Option.some.injEq, Prod.mk.injEq] at h
  rw [← h.1, ← h.2, List.takeWhile_append_dropWhile]

end Reader

end Systolic.Toml
