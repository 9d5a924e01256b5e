import Systolic.Text.Grapheme.Kind

/-!
# Grapheme clusters

What a reader takes for one character: a letter with its marks, a syllable of Hangul, a flag, an emoji sequence. The
clusters of a text make up the text (`flatten_clusters`), and none of them is empty (`ne_nil_of_mem_clusters`).
-/

namespace Systolic.Text.Grapheme

/-! ## Where a cluster goes on -/

/-- Jamo and syllables that make up one syllable of Hangul. -/
def formSyllable (last next : Kind) : Bool :=
  match last with
  | .initial => [Kind.initial, .vowel, .openSyllable, .closedSyllable].contains next
  | .openSyllable | .vowel => [Kind.vowel, .final].contains next
  | .closedSyllable | .final => next = .final
  | _ => false

/-- Whether a text ends in a consonant with marks of which one links it to what follows; the last character is first. -/
def endsLinked (before : List Char) : Bool :=
  let isConjoining (c : Char) : Bool := (Kind.of c).isConjoining
  (before.takeWhile isConjoining).any (Kind.of · = .linker) ∧
    (before.dropWhile isConjoining).head?.map Kind.of = some .consonant

/-- Whether a text ends in a pictograph, its marks and a joiner; the last character is first. -/
def endsJoined : List Char → Bool
  | c :: rest => Kind.of c = .joiner ∧ (rest.dropWhile (Kind.of · |>.isMark)).head?.map Kind.of = some .pictograph
  | [] => false

/-- Whether a text ends in the first half of a flag; the last character is first. -/
def endsInHalf (before : List Char) : Bool := (before.takeWhile (Kind.of · = .regional)).length % 2 = 1

/-- Whether the cluster that so far has the characters `before`, the last one first, goes on with `next`. -/
def goesOn (before : List Char) (next : Char) : Bool :=
  match before with
  | [] => true
  | last :: _ =>
    let last := Kind.of last
    let next := Kind.of next
    if last.isBreak ∨ next.isBreak then last = .carriageReturn ∧ next = .lineFeed
    else if next.isMark ∨ next = .joiner ∨ next = .spacingMark ∨ last = .leader then true
    else
      match next with
      | .consonant => endsLinked before
      | .pictograph => endsJoined before
      | .regional => endsInHalf before
      | next => formSyllable last next

/-! ## Clusters -/

/-- The clusters of a text of which the first has the characters `before` already, the last one first. -/
def clustersFrom (before : List Char) : List Char → List (List Char)
  | [] => if before.isEmpty then [] else [before.reverse]
  | c :: rest => if goesOn before c then clustersFrom (c :: before) rest else before.reverse :: clustersFrom [c] rest

def clusters (text : List Char) : List (List Char) := clustersFrom [] text

theorem flatten_clustersFrom (before text : List Char) :
    (clustersFrom before text).flatten = before.reverse ++ text := by
  induction text generalizing before with
  | nil => cases before <;> simp [clustersFrom]
  | cons c rest ih =>
    rw [clustersFrom]
    split <;> simp [ih]

/-- The clusters of a text make up the text. -/
theorem flatten_clusters (text : List Char) : (clusters text).flatten = text := by
  simp [clusters, flatten_clustersFrom]

theorem ne_nil_of_mem_clustersFrom {before text cluster : List Char} (h : cluster ∈ clustersFrom before text) :
    cluster ≠ [] := by
  induction text generalizing before with
  | nil => cases before <;> simp_all [clustersFrom]
  | cons c rest ih =>
    rw [clustersFrom] at h
    split at h
    · exact ih h
    · rename_i hc
      rcases List.mem_cons.1 h with rfl | h
      · intro hb
        rw [List.reverse_eq_nil_iff] at hb
        subst hb
        exact hc rfl
      · exact ih h

/-- A cluster has one character at least. -/
theorem ne_nil_of_mem_clusters {text cluster : List Char} (h : cluster ∈ clusters text) : cluster ≠ [] :=
  ne_nil_of_mem_clustersFrom h

end Systolic.Text.Grapheme
