import Mathlib.Algebra.Group.Nat.Defs
import Systolic.Number.Decimal
import Systolic.Session.Request

/-!
# The grammar of step-mode requests

`Request.Spells` lists the texts that ask for something, and what they ask for. A line is read as a request exactly when
such a text is left of it between the blanks at its ends (`Request.parse_grammar`). The blanks themselves are described by
`Text.Trimmed`, without a scan.
-/

namespace Systolic

/-! ## Blanks at the ends -/

namespace Text

/-- `t` is what is left of `cs` between the blanks at its ends. -/
structure Trimmed (cs t : List Char) : Prop where
  split : ∃ lead trail, cs = lead ++ t ++ trail ∧ (∀ c ∈ lead, isBlank c = true) ∧ ∀ c ∈ trail, isBlank c = true
  head : ∀ c, t.head? = some c → isBlank c = false
  last : ∀ c, t.getLast? = some c → isBlank c = false

theorem of_head?_dropWhile {cs : List Char} {c : Char} (h : (cs.dropWhile isBlank).head? = some c) :
    isBlank c = false := by
  have hnot := List.head?_dropWhile_not isBlank cs
  rw [h] at hnot
  simpa using hnot

theorem trimmed_trim (cs : List Char) : Trimmed cs (trim cs) := by
  have hleft : cs.dropWhile isBlank = trim cs ++ ((cs.dropWhile isBlank).reverse.takeWhile isBlank).reverse := by
    rw [trim, ← List.reverse_append, List.takeWhile_append_dropWhile, List.reverse_reverse]
  refine ⟨⟨cs.takeWhile isBlank, ((cs.dropWhile isBlank).reverse.takeWhile isBlank).reverse, ?_, ?_, ?_⟩, ?_, ?_⟩
  · rw [List.append_assoc, ← hleft, List.takeWhile_append_dropWhile]
  · exact fun c hc => List.all_eq_true.1 List.all_takeWhile c hc
  · exact fun c hc => List.all_eq_true.1 List.all_takeWhile c (List.mem_reverse.1 hc)
  · intro c hc
    have hfirst : (cs.dropWhile isBlank).head? = some c := by
      rw [hleft, List.head?_append, hc]
      rfl
    exact of_head?_dropWhile hfirst
  · intro c hc
    rw [trim, List.getLast?_reverse] at hc
    exact of_head?_dropWhile hc

/-- What is left between the blanks is determined by the text. -/
theorem Trimmed.trim_eq {cs t : List Char} (h : Trimmed cs t) : trim cs = t := by
  obtain ⟨⟨lead, trail, rfl, hlead, htrail⟩, hhead, hlast⟩ := h
  rw [trim, List.append_assoc, List.dropWhile_append_of_pos hlead]
  have hleft : (t ++ trail).dropWhile isBlank = t ++ trail ∨ t = [] := by
    cases t with
    | nil => exact Or.inr rfl
    | cons c t => exact Or.inl (List.dropWhile_cons_of_neg (by simp [hhead c rfl]))
  rcases hleft with hleft | rfl
  · rw [hleft, List.reverse_append, List.dropWhile_append_of_pos (by simpa using htrail)]
    cases hrev : t.reverse with
    | nil => simpa using hrev.symm
    | cons c rest =>
      have hc : isBlank c = false := hlast c (by rw [List.getLast?_eq_head?_reverse, hrev]; rfl)
      rw [List.dropWhile_cons_of_neg (by simp [hc]), ← hrev, List.reverse_reverse]
  · have hnone : (trail ++ []).dropWhile isBlank = [].dropWhile isBlank := List.dropWhile_append_of_pos htrail
    rw [List.append_nil, List.dropWhile_nil] at hnone
    rw [List.nil_append, hnone]
    rfl

end Text

namespace Request

/-! ## Counts -/

/-- Digits on top of a number make it no smaller. -/
theorem le_foldl_digits (n : Nat) (digits : List Char) :
    n ≤ digits.foldl (fun n c => n * 10 + (c.toNat - '0'.toNat)) n := by
  induction digits generalizing n with
  | nil => exact Nat.le_refl n
  | cons c digits ih =>
    rw [List.foldl_cons]
    exact Nat.le_trans (Nat.le_trans (Nat.le_mul_of_pos_right n (by decide)) (Nat.le_add_right _ _)) (ih _)

/-- Digits are read as the number that they spell on top of what has been read, if it stays below the bound. -/
theorem readDigits_ok_iff {n m : Nat} (hn : n < countBound) (digits : List Char) : readDigits n digits = .ok m ↔
    (∀ c ∈ digits, c.isDigit = true) ∧ m = digits.foldl (fun n c => n * 10 + (c.toNat - '0'.toNat)) n ∧
      m < countBound := by
  induction digits generalizing n with
  | nil =>
    simp only [readDigits, Except.ok.injEq, List.foldl_nil, List.not_mem_nil, false_imp_iff, implies_true, true_and]
    constructor
    · rintro rfl
      exact ⟨rfl, hn⟩
    · exact fun h => h.1.symm
  | cons c digits ih =>
    rw [List.forall_mem_cons, List.foldl_cons, readDigits]
    by_cases hc : c.isDigit = true
    · rw [if_pos hc]
      by_cases hnext : n * 10 + (c.toNat - '0'.toNat) < countBound
      · rw [if_pos hnext, ih hnext]
        simp only [hc, true_and]
      · rw [if_neg hnext]
        constructor
        · exact nofun
        · rintro ⟨-, rfl, hm⟩
          exact absurd (Nat.lt_of_le_of_lt (le_foldl_digits _ digits) hm) hnext
    · rw [if_neg hc]
      constructor
      · exact nofun
      · exact fun h => absurd h.1.1 hc

/-- `text` is the numeral with these digits: one or more of them, after an optional plus sign. -/
structure Numeral (text digits : List Char) : Prop where
  sign : text = digits ∨ text = '+' :: digits
  ne_nil : digits ≠ []
  isDigit : ∀ c ∈ digits, c.isDigit = true

/-- A digit is no plus sign and no blank. -/
theorem of_isDigit {c : Char} (h : c.isDigit = true) : c ≠ '+' ∧ Text.isBlank c = false := by
  constructor
  · rintro rfl
    exact absurd h (by decide)
  · have hall : Text.blanks.all (fun c => !c.isDigit) = true := by decide
    cases hblank : Text.isBlank c with
    | false => rfl
    | true =>
      have hno := List.all_eq_true.1 hall c (by simpa [Text.isBlank] using hblank)
      rw [h] at hno
      cases hno

theorem readCount_plus {digits : List Char} (h : digits ≠ []) : readCount ('+' :: digits) = readDigits 0 digits := by
  cases digits with
  | nil => exact absurd rfl h
  | cons c digits => rfl

theorem readCount_digits {digits : List Char} (h : digits ≠ []) (hplus : digits.head? ≠ some '+') :
    readCount digits = readDigits 0 digits := by
  unfold readCount
  split
  · exact absurd rfl h
  · exact absurd rfl hplus
  · exact absurd rfl hplus
  · rfl

/-- A count is read from the numerals below the bound. -/
theorem readCount_ok_iff {text : List Char} {n : Nat} : readCount text = .ok n ↔
    ∃ digits, Numeral text digits ∧ n = Decimal.ofDigits digits ∧ n < countBound := by
  have hzero : 0 < countBound := by decide
  constructor
  · intro h
    by_cases hplus : text.head? = some '+'
    · obtain ⟨digits, rfl⟩ := List.head?_eq_some_iff.1 hplus
      by_cases hne : digits = []
      · rw [hne] at h
        cases h
      · rw [readCount_plus hne, readDigits_ok_iff hzero] at h
        exact ⟨digits, ⟨Or.inr rfl, hne, h.1⟩, h.2⟩
    · by_cases hne : text = []
      · rw [hne] at h
        cases h
      · rw [readCount_digits hne hplus, readDigits_ok_iff hzero] at h
        exact ⟨text, ⟨Or.inl rfl, hne, h.1⟩, h.2⟩
  · rintro ⟨digits, ⟨hsign, hne, hdigits⟩, hn⟩
    have hread : readDigits 0 digits = .ok n := (readDigits_ok_iff hzero digits).2 ⟨hdigits, hn⟩
    rcases hsign with rfl | rfl
    · rw [readCount_digits hne, hread]
      intro hhead
      exact (of_isDigit (hdigits _ (List.mem_of_head? hhead))).1 rfl
    · rw [readCount_plus hne, hread]

/-- A numeral has no blanks at its ends. -/
theorem Numeral.trim_append {text digits blanks : List Char} (h : Numeral text digits)
    (hblanks : ∀ c ∈ blanks, Text.isBlank c = true) : Text.trim (blanks ++ text) = text := by
  refine Text.Trimmed.trim_eq ⟨⟨blanks, [], by simp, hblanks, nofun⟩, fun c hc => ?_, fun c hc => ?_⟩
  · rcases h.sign with rfl | rfl
    · exact (of_isDigit (h.isDigit c (List.mem_of_head? hc))).2
    · obtain rfl : '+' = c := Option.some.inj hc
      decide
  · have hlast : digits.getLast? = some c := by
      rcases h.sign with rfl | rfl
      · exact hc
      · rwa [List.getLast?_cons_of_ne_nil h.ne_nil] at hc
    exact (of_isDigit (h.isDigit c (List.mem_of_getLast? hlast))).2

theorem ofCount_ok_iff {text : List Char} {r : Request} : ofCount text = .ok r ↔
    ∃ digits, Numeral text digits ∧ r = .step (Decimal.ofDigits digits) ∧ 1 ≤ Decimal.ofDigits digits ∧
      Decimal.ofDigits digits < countBound := by
  constructor
  · intro h
    unfold ofCount at h
    split at h
    · cases h
    · split at h
      · cases h
      · rename_i n hzero hread
        obtain rfl := Except.ok.inj h
        obtain ⟨digits, hnumeral, rfl, hbound⟩ := readCount_ok_iff.1 hread
        exact ⟨digits, hnumeral, rfl, Nat.one_le_iff_ne_zero.2 hzero, hbound⟩
      · cases h
  · rintro ⟨digits, hnumeral, rfl, hpos, hbound⟩
    have hread : readCount text = .ok (Decimal.ofDigits digits) :=
      readCount_ok_iff.2 ⟨digits, hnumeral, rfl, hbound⟩
    have hne : text.isEmpty = false := by
      rcases hnumeral.sign with rfl | rfl
      · simpa using hnumeral.ne_nil
      · rfl
    unfold ofCount
    rw [hne, hread]
    obtain ⟨n, hn⟩ : ∃ n, Decimal.ofDigits digits = n + 1 := ⟨_, (Nat.sub_add_cancel hpos).symm⟩
    rw [hn]
    rfl

/-! ## Requests -/

/-- The texts that ask for something. -/
inductive Spells : List Char → Request → Prop
  | once : Spells [] (.step 1)
  /-- `si`, blanks, and a numeral from 1 to `2 ^ 32 - 1`; leading zeros do not matter. -/
  | count {blanks text digits : List Char} (hblanks : ∀ c ∈ blanks, Text.isBlank c = true) (htext : Numeral text digits)
      (hone : 1 ≤ Decimal.ofDigits digits) (hbound : Decimal.ofDigits digits ≤ 2 ^ 32 - 1) :
      Spells ('s' :: 'i' :: (blanks ++ text)) (.step (Decimal.ofDigits digits))
  | resume : Spells ['c'] .continue
  | print : Spells ['p'] .print
  | quit : Spells ['q'] .quit

/-- A text that ends in no blank has blanks only in front of what is left of it behind `si`. -/
theorem exists_blanks {line rest : List Char} (ht : Text.Trimmed line ('s' :: 'i' :: rest)) :
    ∃ blanks, rest = blanks ++ Text.trim rest ∧ ∀ c ∈ blanks, Text.isBlank c = true := by
  obtain ⟨⟨lead, trail, hrest, hlead, htrail⟩, -, -⟩ := Text.trimmed_trim rest
  refine ⟨lead, ?_, hlead⟩
  cases hlast : trail.getLast? with
  | none =>
    rw [List.getLast?_eq_none_iff.1 hlast, List.append_nil] at hrest
    exact hrest
  | some c =>
    have hend : ('s' :: 'i' :: rest).getLast? = some c := by
      rw [hrest, ← List.cons_append, ← List.cons_append, List.getLast?_append, hlast]
      rfl
    have hblank := ht.last c hend
    rw [htrail c (List.mem_of_getLast? hlast)] at hblank
    cases hblank

theorem parse_ok_iff {line t : List Char} (ht : Text.Trimmed line t) {r : Request} :
    parse line = .ok r ↔ Spells t r := by
  unfold parse
  rw [ht.trim_eq]
  constructor
  · intro h
    split at h
    · obtain rfl := Except.ok.inj h
      exact .once
    · obtain ⟨blanks, hrest, hblanks⟩ := exists_blanks ht
      obtain ⟨digits, hnumeral, rfl, hone, hbound⟩ := ofCount_ok_iff.1 h
      rw [hrest]
      exact .count hblanks hnumeral hone (Nat.le_pred_of_lt hbound)
    · obtain rfl := Except.ok.inj h
      exact .resume
    · obtain rfl := Except.ok.inj h
      exact .print
    · obtain rfl := Except.ok.inj h
      exact .quit
    · cases h
  · intro h
    cases h with
    | count hblanks htext hone hbound =>
      refine ofCount_ok_iff.2 ⟨_, ?_, rfl, hone, Nat.lt_of_le_pred (by decide) hbound⟩
      rwa [htext.trim_append hblanks]
    | once | resume | print | quit => rfl

/-- **The grammar of requests.** What is left of a line between the blanks at its ends is read as a request exactly if the
text asks for it; every other line is refused. -/
theorem parse_grammar (line : List Char) : Text.Trimmed line (Text.trim line) ∧
    (∀ r, parse line = .ok r ↔ Spells (Text.trim line) r) ∧
    ((∃ refusal, parse line = .error refusal) ↔ ∀ r, ¬ Spells (Text.trim line) r) := by
  have ht := Text.trimmed_trim line
  refine ⟨ht, fun r => parse_ok_iff ht, ?_⟩
  constructor
  · rintro ⟨refusal, hrefused⟩ r hr
    rw [(parse_ok_iff ht).2 hr] at hrefused
    cases hrefused
  · intro hnone
    cases hparse : parse line with
    | error refusal => exact ⟨refusal, rfl⟩
    | ok r => exact absurd ((parse_ok_iff ht).1 hparse) (hnone r)

example : parse " si\t+0004294967295 ".toList = .ok (.step 4294967295) := by rfl

end Request

end Systolic
