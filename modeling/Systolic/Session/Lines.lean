import Systolic.Text.Grapheme.Cluster

/-!
# Lines of step-mode input

Input is cut into lines at its line feeds, and a backspace takes back the grapheme cluster before it.
-/

namespace Systolic.Session

/-! ## Backspaces -/

/-- What is left of a line so far. -/
structure Draft where
  /-- The characters, the last one first. -/
  text : List Char := []
  /-- How many bytes each cluster takes, modulo 256, the last cluster first. -/
  sizes : List Nat := []

namespace Draft

/-- A text with its last character first, without the characters that make up its last `count` bytes. -/
def dropBytes : Nat → List Char → List Char
  | count, c :: rest => if c.utf8Size ≤ count then dropBytes (count - c.utf8Size) rest else c :: rest
  | _, [] => []

def backspace : List Char := ['\x08']

/-- The bytes that taking a cluster back removes; its size is kept in a byte. -/
def size (cluster : List Char) : Nat := (String.ofList cluster).utf8ByteSize % 256

/-- Take in one more cluster. A backspace with nothing before it has no effect. -/
def add (d : Draft) (cluster : List Char) : Draft :=
  if cluster = backspace then
    match d.sizes with
    | [] => d
    | count :: sizes => ⟨dropBytes count d.text, sizes⟩
  else ⟨cluster.reverse ++ d.text, size cluster :: d.sizes⟩

/-- Clusters that are no backspaces add up. -/
theorem text_foldl_add {clusters : List (List Char)} (h : backspace ∉ clusters) (d : Draft) :
    (clusters.foldl add d).text = clusters.flatten.reverse ++ d.text := by
  induction clusters generalizing d with
  | nil => simp
  | cons cluster rest ih =>
    rw [List.mem_cons, not_or] at h
    rw [List.foldl_cons, ih h.2, add, if_neg (Ne.symm h.1)]
    simp

end Draft

/-- The text after its backspaces have taken effect. -/
def edited (line : List Char) : List Char := ((Text.Grapheme.clusters line).foldl Draft.add {}).text.reverse

/-- A line without backspaces stands as it is. -/
theorem edited_eq_self {line : List Char} (h : '\x08' ∉ line) : edited line = line := by
  have h : Draft.backspace ∉ Text.Grapheme.clusters line := by
    intro hb
    refine h ?_
    rw [← Text.Grapheme.flatten_clusters line]
    exact List.mem_flatten.2 ⟨_, hb, List.mem_singleton.2 rfl⟩
  simp [edited, Draft.text_foldl_add h, Text.Grapheme.flatten_clusters]

/-! ## Lines -/

/-- The lines of a text without their line feeds. What follows the last line feed is a line unless it is empty. -/
def lines : List Char → List (List Char)
  | [] => []
  | '\n' :: rest => [] :: lines rest
  | c :: rest =>
    match lines rest with
    | [] => [[c]]
    | line :: more => (c :: line) :: more

/-- A line ends at its line feed. -/
theorem lines_append {line : List Char} (h : '\n' ∉ line) (rest : List Char) :
    lines (line ++ '\n' :: rest) = line :: lines rest := by
  induction line with
  | nil => rw [List.nil_append, lines]
  | cons c line ih =>
    rw [List.mem_cons, not_or] at h
    rw [List.cons_append, lines.eq_def]
    split
    · rename_i heq; cases heq
    · rename_i heq
      injection heq with hc _
      exact absurd hc.symm h.1
    · rename_i heq
      injection heq with hc hr
      subst hc hr
      rw [ih h.2]

end Systolic.Session
