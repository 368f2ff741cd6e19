import ClassDiagram.Text.Blank
import ClassDiagram.Text.Letter

/-!
# Whole words

A word of a text is a maximal run of word characters. This module finds whole words and reads the
names and blanks at the front of a text.
-/

namespace ClassDiagram

namespace Text

/-- Splits off the run of word characters at the front. -/
def spanWord (text : Text) : Text × Text := (text.takeWhile isWordChar, text.dropWhile isWordChar)

/-- The place of the first whole word that satisfies `wanted`, reading on behind a word character
or not. -/
def wordPlaceFrom? (wanted : Text → Bool) (afterWordChar : Bool) : Text → Option Nat
  | [] => none
  | c :: rest =>
    if !afterWordChar && isWordChar c && wanted (spanWord (c :: rest)).1 then some 0
    else (wordPlaceFrom? wanted (isWordChar c) rest).map (· + 1)

/-- The place of the first whole word that is `word`. -/
def wordPlace? (word : String) (text : Text) : Option Nat :=
  wordPlaceFrom? (fun found => String.ofList found = word) false text

/-- Whether one of some words occurs as a whole word. -/
def hasWord (words : List String) (text : Text) : Bool :=
  (wordPlaceFrom? (fun found => words.contains (String.ofList found)) false text).isSome

/-- What stands behind the blanks at the front, of which there has to be one. -/
def afterBlanks? : Text → Option Text
  | [] => none
  | c :: rest => if isBlank c then some (stripStart rest) else none

/-- Splits off a name at the front: a character that can start one, then all that can go on. -/
def nameBy? (starts continues : Char → Bool) : Text → Option (Text × Text)
  | [] => none
  | c :: rest =>
    if starts c then some (c :: rest.takeWhile continues, rest.dropWhile continues) else none

/-- Splits off a plain name at the front: a letter or underscore, then word characters. -/
def name? (text : Text) : Option (Text × Text) := nameBy? isNameStart isWordChar text

/-- Splits off a name that may hold dollar signs. -/
def dollarName? (text : Text) : Option (Text × Text) :=
  nameBy? isDollarNameStart isDollarNameChar text

/-- Whether the whole text is a plain name. -/
def isName : Text → Bool
  | [] => false
  | c :: rest => isNameStart c && rest.all isWordChar

theorem length_lt_of_afterBlanks? {text rest : Text} (h : afterBlanks? text = some rest) :
    rest.length < text.length := by
  cases text with
  | nil => simp [afterBlanks?] at h
  | cons c tail =>
    rw [afterBlanks?] at h
    split at h
    · simp only [Option.some.injEq] at h
      have := length_stripStart_le tail
      rw [← h, List.length_cons]
      omega
    · simp at h

/-- What is split off as a name, and what is left of the text. -/
theorem nameBy?_eq_some_iff {starts continues : Char → Bool} {text name rest : Text} :
    nameBy? starts continues text = some (name, rest) ↔
      ∃ c tail, text = c :: tail ∧ starts c = true ∧
        name = c :: tail.takeWhile continues ∧ rest = tail.dropWhile continues := by
  cases text with
  | nil => simp [nameBy?]
  | cons c tail =>
    rw [nameBy?]
    split
    · rename_i hstarts
      simp only [Option.some.injEq, Prod.mk.injEq, List.cons.injEq]
      constructor
      · rintro ⟨rfl, rfl⟩
        exact ⟨c, tail, ⟨rfl, rfl⟩, hstarts, rfl, rfl⟩
      · rintro ⟨_, _, ⟨rfl, rfl⟩, -, rfl, rfl⟩
        exact ⟨rfl, rfl⟩
    · rename_i hnot
      refine iff_of_false (by simp) ?_
      rintro ⟨_, _, heq, hstarts, -⟩
      cases heq
      exact hnot hstarts

/-- A name is split off up to where the text no longer goes on with it. -/
theorem nameBy?_append {starts continues : Char → Bool} {first : Char} {others rest : Text}
    (hfirst : starts first = true) (hothers : ∀ c ∈ others, continues c = true)
    (hrest : ∀ c ∈ rest.head?, continues c = false) :
    nameBy? starts continues (first :: others ++ rest) = some (first :: others, rest) := by
  have hends : rest.takeWhile continues = [] ∧ rest.dropWhile continues = rest := by
    cases rest with
    | nil => exact ⟨rfl, rfl⟩
    | cons c tail =>
      have hc := hrest c rfl
      exact ⟨List.takeWhile_cons_of_neg (by simp [hc]), List.dropWhile_cons_of_neg (by simp [hc])⟩
  rw [List.cons_append, nameBy?, if_pos hfirst, List.takeWhile_append_of_pos hothers,
    List.dropWhile_append_of_pos hothers, hends.1, hends.2, List.append_nil]

/-- A name takes at least the character that starts it. -/
theorem length_lt_of_nameBy? {starts continues : Char → Bool} {text name rest : Text}
    (h : nameBy? starts continues text = some (name, rest)) : rest.length < text.length := by
  obtain ⟨c, tail, rfl, -, -, rfl⟩ := nameBy?_eq_some_iff.1 h
  have := (List.dropWhile_sublist continues (l := tail)).length_le
  rw [List.length_cons]
  omega

theorem length_spanWord_le (text : Text) : (spanWord text).2.length ≤ text.length :=
  (List.dropWhile_sublist _).length_le

end Text

end ClassDiagram
