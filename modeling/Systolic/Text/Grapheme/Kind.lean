import Systolic.Text.Grapheme.Ranges

/-!
# Kinds of characters

What a character is to the rules for grapheme clusters. Every character has one kind; the syllables of Hangul have theirs
by their place in the block, where each run of 28 begins with the one that has no final consonant.
-/

namespace Systolic.Text.Grapheme

inductive Kind
  | carriageReturn
  | lineFeed
  | control
  /-- A mark on what it follows. -/
  | mark
  /-- A mark that links consonants. -/
  | linker
  /-- The zero width non-joiner, a mark that keeps consonants apart. -/
  | nonJoiner
  /-- The zero width joiner. -/
  | joiner
  | spacingMark
  /-- A character that belongs to what follows it. -/
  | leader
  /-- Half of a flag. -/
  | regional
  /-- A Hangul initial consonant. -/
  | initial
  /-- A Hangul vowel. -/
  | vowel
  /-- A Hangul final consonant. -/
  | final
  /-- A Hangul syllable without a final consonant. -/
  | openSyllable
  /-- A Hangul syllable with a final consonant. -/
  | closedSyllable
  | pictograph
  /-- A consonant that can be linked. -/
  | consonant
  | other
  deriving DecidableEq

namespace Kind

def isInitial (code : Nat) : Bool := isIn [(0x1100, 0x115f), (0xa960, 0xa97c)] code

def isVowel (code : Nat) : Bool := isIn [(0x1160, 0x11a7), (0xd7b0, 0xd7c6), (0x16d63, 0x16d63), (0x16d67, 0x16d6a)] code

def isFinal (code : Nat) : Bool := isIn [(0x11a8, 0x11ff), (0xd7cb, 0xd7fb)] code

/-- The first of the Hangul syllables. -/
def firstSyllable : Nat := 0xac00

def isSyllable (code : Nat) : Bool := isIn [(firstSyllable, 0xd7a3)] code

/-- The kind of the character with the given code. -/
def ofCode (code : Nat) : Kind :=
  if isIn [(0x20, 0x7e)] code then other
  else if code = 0x0d then carriageReturn
  else if code = 0x0a then lineFeed
  else if code = 0x200c then nonJoiner
  else if code = 0x200d then joiner
  else if isIn controls code then control
  else if isIn linkers code then linker
  else if isIn marks code then mark
  else if isIn spacingMarks code then spacingMark
  else if isIn leaders code then leader
  else if isIn [(0x1f1e6, 0x1f1ff)] code then regional
  else if isInitial code then initial
  else if isVowel code then vowel
  else if isFinal code then final
  else if isSyllable code then if (code - firstSyllable) % 28 = 0 then openSyllable else closedSyllable
  else if isIn pictographs code then pictograph
  else if isIn consonants code then consonant
  else other

def of (c : Char) : Kind := ofCode c.toNat

/-- A character that stands alone but for the two that end a line. -/
def isBreak : Kind → Bool
  | carriageReturn | lineFeed | control => true
  | _ => false

/-- A mark without a width of its own. -/
def isMark : Kind → Bool
  | mark | linker | nonJoiner => true
  | _ => false

/-- A mark that can stand between linked consonants. -/
def isConjoining : Kind → Bool
  | mark | linker | joiner => true
  | _ => false

/-- The printable characters of ASCII have no part in any rule. -/
theorem ofCode_of_printable {code : Nat} (h : 0x20 ≤ code ∧ code ≤ 0x7e) : ofCode code = other := by
  have : isIn [(0x20, 0x7e)] code = true := by simp [isIn, h]
  rw [ofCode, if_pos this]

end Kind

end Systolic.Text.Grapheme
