import ClassDiagram.Proofs.Scan.Plain
import ClassDiagram.Proofs.Text.Spelled
import ClassDiagram.Reader.BaseList
import ClassDiagram.Text.Line

/-!
# Identifiers and dotted names

The names in a rendered declaration. An identifier is made of ASCII letters, digits and
underscores, does not start with a digit and is none of the words that its language reserves; a
dotted name is one or more identifiers joined by dots.

* `Ident.balanced`, `Ident.tidy`, `Ident.avoids`: an identifier is a single word to every scanner.
* `Dotted.balanced`, `Dotted.tidy`, `Dotted.avoids`: the same for dotted names.
-/

namespace ClassDiagram

namespace Text

/-- An ASCII letter or digit, or the underscore. -/
def isIdentChar (c : Char) : Bool := c.isAlphanum || c == '_'

/-- A letter or underscore, then letters, digits and underscores, all of them ASCII. -/
def isIdent : Text → Bool
  | [] => false
  | c :: rest => isNameStart c && rest.all isIdentChar

section IdentChar

variable {c : Char}

/-- The letters by their codes. -/
theorem isAlpha_iff : c.isAlpha = true ↔
    (65 ≤ c.toNat ∧ c.toNat ≤ 90) ∨ (97 ≤ c.toNat ∧ c.toNat ≤ 122) := by
  have hparts : c.isAlpha = (decide (65 ≤ c.val ∧ c.val ≤ 90) ||
      (decide (97 ≤ c.val) && decide (c.val ≤ 122))) := rfl
  rw [hparts]
  simp only [Bool.or_eq_true, Bool.and_eq_true, decide_eq_true_eq, UInt32.le_iff_toNat_le]
  rfl

/-- The characters of identifiers by their codes. -/
theorem toNat_of_identChar (h : isIdentChar c = true) :
    (48 ≤ c.toNat ∧ c.toNat ≤ 57) ∨ (65 ≤ c.toNat ∧ c.toNat ≤ 90) ∨ c.toNat = 95 ∨
      (97 ≤ c.toNat ∧ c.toNat ≤ 122) := by
  simp only [isIdentChar, Char.isAlphanum, Bool.or_eq_true, isAlpha_iff,
    Char.isDigit_iff_toNat, beq_iff_eq] at h
  rcases h with ((h | h) | h) | rfl
  · exact Or.inr (Or.inl h)
  · exact Or.inr (Or.inr (Or.inr h))
  · exact Or.inl h
  · exact Or.inr (Or.inr (Or.inl rfl))

/-- Identifiers are made of word characters. -/
theorem isWordChar_of_identChar (h : isIdentChar c = true) : isWordChar c = true := by
  have := toNat_of_identChar h
  rw [isWordChar, if_pos (by omega)]
  exact h

/-- No blank stands in an identifier. -/
theorem not_blank_of_identChar (h : isIdentChar c = true) : isBlank c = false := by
  have := toNat_of_identChar h
  simp only [isBlank, Bool.or_eq_false_iff, Bool.and_eq_false_iff, decide_eq_false_iff_not,
    beq_eq_false_iff_ne]
  omega

/-- No line ends in an identifier. -/
theorem not_break_of_identChar (h : isIdentChar c = true) : isLineBreak c = false := by
  have := toNat_of_identChar h
  simp only [isLineBreak, Bool.or_eq_false_iff, Bool.and_eq_false_iff, decide_eq_false_iff_not,
    beq_eq_false_iff_ne]
  omega

/-- What can start a name can stand in an identifier. -/
theorem isIdentChar_of_nameStart (h : isNameStart c = true) : isIdentChar c = true := by
  simp only [isNameStart, isIdentChar, Char.isAlphanum, Bool.or_eq_true] at h ⊢
  exact h.imp Or.inl id

theorem ne_of_identChar {d : Char} (h : isIdentChar c = true) (hd : isIdentChar d = false) :
    c ≠ d := by
  rintro rfl
  rw [hd] at h
  exact Bool.false_ne_true h

/-- No scanner takes notice of the characters of an identifier. -/
theorem isOrdinary_of_identChar (h : isIdentChar c = true) : isOrdinary c = true := by
  by_contra hno
  simp only [isOrdinary, Literal.isQuote, Literal.isMark, Brackets.all, Brackets.opens,
    Brackets.closes, Bool.not_eq_true, Bool.not_eq_false', Bool.or_eq_true, Bool.true_and,
    Bool.not_false, Bool.and_true, beq_iff_eq] at hno
  rcases hno with (((((rfl | rfl) | rfl) | rfl | rfl) | rfl) | ((rfl | rfl) | rfl) | rfl) |
    ((rfl | rfl) | rfl) | rfl <;> exact absurd h (by decide)

/-- Nothing in an identifier opens a literal or a comment. -/
theorem isPlain_of_identChar (h : isIdentChar c = true) : isPlain c = true := by
  have hord := isOrdinary_of_identChar h
  rw [isPlain, not_quote_of_ordinary hord, not_mark_of_ordinary hord,
    beq_eq_false_iff_ne.mpr (ne_of_identChar h (by decide))]
  rfl

/-- An identifier can stand in quotes as it is. -/
theorem isQuotable_of_identChar (h : isIdentChar c = true) : isQuotable c = true := by
  have hne : ∀ d, isIdentChar d = false → (c == d) = false := fun d hd =>
    beq_eq_false_iff_ne.mpr (ne_of_identChar h hd)
  rw [isQuotable, hne '"' (by decide), hne '\\' (by decide), hne '\n' (by decide)]
  rfl

end IdentChar

/-- An identifier is not empty and made of its characters. -/
theorem identChar_of_isIdent {text : Text} (h : isIdent text = true) :
    text ≠ [] ∧ ∀ c ∈ text, isIdentChar c = true := by
  cases text with
  | nil => exact absurd h (by decide)
  | cons c rest =>
      simp only [isIdent, Bool.and_eq_true, List.all_eq_true] at h
      refine ⟨List.cons_ne_nil _ _, ?_⟩
      intro d hd
      rcases List.mem_cons.mp hd with rfl | hd
      · exact isIdentChar_of_nameStart h.1
      · exact h.2 d hd

/-- A text whose first character may stand in an identifier. -/
def StartsIdent (text : Text) : Prop := ∃ c rest, text = c :: rest ∧ isIdentChar c = true

/-- What follows a text does not change how it starts. -/
theorem StartsIdent.append {text : Text} (h : StartsIdent text) (behind : Text) :
    StartsIdent (text ++ behind) := by
  obtain ⟨c, rest, rfl, hc⟩ := h
  exact ⟨c, rest ++ behind, rfl, hc⟩

end Text

/-- An ASCII identifier that is none of some reserved words. -/
structure Ident (reserved : List String) where
  chars : Text
  isIdent : Text.isIdent chars = true := by decide
  isFree : String.ofList chars ∉ reserved := by decide
  deriving DecidableEq

namespace Ident

open Text

variable {reserved : List String}

/-- The name that an identifier spells. -/
def name (ident : Ident reserved) : String := String.ofList ident.chars

theorem identChar (ident : Ident reserved) : ∀ c ∈ ident.chars, isIdentChar c = true :=
  (identChar_of_isIdent ident.isIdent).2

theorem ne_nil (ident : Ident reserved) : ident.chars ≠ [] :=
  (identChar_of_isIdent ident.isIdent).1

/-- An identifier has a name. -/
theorem name_ne_empty (ident : Ident reserved) : ident.name ≠ "" := by
  intro h
  have : (String.ofList ident.chars).toList = "".toList := congrArg String.toList h
  rw [String.toList_ofList] at this
  exact ident.ne_nil this

/-- An identifier is one word. -/
theorem tidy (ident : Ident reserved) : Tidy ident.chars :=
  .word ident.ne_nil fun c hc => not_blank_of_identChar (ident.identChar c hc)

/-- There are no brackets in an identifier, so none is left open. -/
theorem balanced (ident : Ident reserved) {brackets : Brackets} {top : Char → Prop}
    (htop : ∀ c, isIdentChar c = true → top c) : Balanced brackets top ident.chars :=
  .of_ordinary fun c hc =>
    ⟨isOrdinary_of_identChar (ident.identChar c hc), htop c (ident.identChar c hc)⟩

theorem word (ident : Ident reserved) : ∀ c ∈ ident.chars, isWordChar c = true :=
  fun c hc => isWordChar_of_identChar (ident.identChar c hc)

/-- An identifier is no reserved word. -/
theorem chars_ne (ident : Ident reserved) {word : String} (h : word ∈ reserved) :
    ident.chars ≠ word.toList := by
  intro heq
  refine ident.isFree ?_
  rwa [heq, String.ofList_toList]

/-- No reserved word stands in an identifier. -/
theorem avoids (ident : Ident reserved) : Avoids reserved ident.chars :=
  .of_word ident.word ident.isFree

theorem starts (ident : Ident reserved) : StartsIdent ident.chars := by
  cases hchars : ident.chars with
  | nil => exact absurd hchars ident.ne_nil
  | cons c rest =>
      exact ⟨c, rest, rfl, ident.identChar c (by rw [hchars]; exact List.mem_cons_self)⟩

/-- The first character of an identifier and the others. -/
theorem exists_chars (ident : Ident reserved) :
    ∃ first others, ident.chars = first :: others ∧ isNameStart first = true ∧
      ∀ c ∈ others, isWordChar c = true := by
  have hword := ident.word
  have hident := ident.isIdent
  obtain ⟨first, others, hchars⟩ := List.exists_cons_of_ne_nil ident.ne_nil
  rw [hchars] at hword hident
  rw [Text.isIdent, Bool.and_eq_true] at hident
  exact ⟨first, others, hchars, hident.1, fun c hc => hword c (List.mem_cons_of_mem _ hc)⟩

/-- An identifier is a name. -/
theorem isName_chars (ident : Ident reserved) : isName ident.chars = true := by
  obtain ⟨first, others, hchars, hfirst, hothers⟩ := ident.exists_chars
  rw [hchars, isName, hfirst, Bool.true_and, List.all_eq_true]
  exact hothers

/-- An identifier is split off before a text that does not go on with it. -/
theorem name?_of_ends (ident : Ident reserved) {rest : Text}
    (hrest : ∀ c ∈ rest.head?, isWordChar c = false) :
    name? (ident.chars ++ rest) = some (ident.chars, rest) := by
  obtain ⟨first, others, hchars, hfirst, hothers⟩ := ident.exists_chars
  rw [hchars]
  exact nameBy?_append hfirst hothers hrest

/-- An identifier is split off up to the character that ends it. -/
theorem name?_append (ident : Ident reserved) {c : Char} (hc : isWordChar c = false)
    (rest : Text) : name? (ident.chars ++ c :: rest) = some (ident.chars, c :: rest) :=
  ident.name?_of_ends fun _ hhead => Option.some.inj hhead ▸ hc

/-- An identifier that nothing follows is split off whole. -/
theorem name?_chars (ident : Ident reserved) : name? ident.chars = some (ident.chars, []) := by
  have hname : name? (ident.chars ++ []) = some (ident.chars, []) :=
    ident.name?_of_ends fun _ hhead => absurd hhead (by simp)
  rwa [List.append_nil] at hname

/-- The same for names that may hold dollar signs. -/
theorem dollarName?_append (ident : Ident reserved) {c : Char} (hc : isDollarNameChar c = false)
    (rest : Text) : dollarName? (ident.chars ++ c :: rest) = some (ident.chars, c :: rest) := by
  obtain ⟨first, others, hchars, hfirst, hword⟩ := ident.exists_chars
  have hstart : isDollarNameStart first = true := by
    rw [isDollarNameStart, hfirst, Bool.true_or]
  have hothers : ∀ d ∈ others, isDollarNameChar d = true := by
    intro d hd
    rw [isDollarNameChar, hword d hd, Bool.true_or]
  rw [hchars]
  exact nameBy?_append hstart hothers fun _ hhead => Option.some.inj hhead ▸ hc

/-- An identifier is the word at the front, up to the character that ends it. -/
theorem spanWord_append (ident : Ident reserved) {c : Char} (hc : isWordChar c = false)
    (rest : Text) : spanWord (ident.chars ++ c :: rest) = (ident.chars, c :: rest) := by
  unfold spanWord
  rw [List.takeWhile_append_of_pos ident.word, List.dropWhile_append_of_pos ident.word,
    List.takeWhile_cons_of_neg (by simp [hc]), List.dropWhile_cons_of_neg (by simp [hc]),
    List.append_nil]

theorem spelled (ident : Ident reserved) {signs : List Char} :
    Spelled isIdentChar signs ident.chars := .of_letters ident.identChar

/-- A character that is in no identifier is not in this one. -/
theorem not_mem (ident : Ident reserved) {c : Char} (hc : isIdentChar c = false) :
    c ∉ ident.chars := by
  intro hmem
  have := ident.identChar c hmem
  rw [hc] at this
  exact Bool.false_ne_true this

end Ident

/-- One or more identifiers joined by dots. -/
structure Dotted (reserved : List String) where
  first : Ident reserved
  others : List (Ident reserved) := []
  deriving DecidableEq

namespace Dotted

open Text

variable {reserved : List String}

/-- A dotted name as it is written. -/
def text (dotted : Dotted reserved) : Text :=
  dotted.first.chars ++ dotted.others.flatMap fun ident => '.' :: ident.chars

/-- A dotted name is made of identifier characters and dots. -/
theorem mem_text {dotted : Dotted reserved} {c : Char} (h : c ∈ dotted.text) :
    isIdentChar c = true ∨ c = '.' := by
  rcases List.mem_append.mp h with h | h
  · exact Or.inl (dotted.first.identChar c h)
  · obtain ⟨ident, _, hc⟩ := List.mem_flatMap.mp h
    rcases List.mem_cons.mp hc with rfl | hc
    · exact Or.inr rfl
    · exact Or.inl (ident.identChar c hc)

/-- A dotted name is spelled with dots between its letters. -/
theorem spelled (dotted : Dotted reserved) {signs : List Char} (hdot : '.' ∈ signs) :
    Spelled isIdentChar signs dotted.text := by
  intro c hc
  rcases mem_text hc with hc | rfl
  · exact Or.inl hc
  · exact Or.inr hdot

/-- A dotted name starts as its first part does. -/
theorem starts (dotted : Dotted reserved) : StartsIdent dotted.text := dotted.first.starts.append _

theorem ne_nil (dotted : Dotted reserved) : dotted.text ≠ [] := by
  intro h
  exact dotted.first.ne_nil (List.append_eq_nil_iff.mp h).1

/-- A dotted name is one word. -/
theorem tidy (dotted : Dotted reserved) : Tidy dotted.text := by
  refine .word dotted.ne_nil ?_
  intro c hc
  rcases mem_text hc with hc | rfl
  · exact not_blank_of_identChar hc
  · decide

/-- There are no brackets in a dotted name, so none is left open. -/
theorem balanced (dotted : Dotted reserved) {brackets : Brackets} {top : Char → Prop}
    (htop : ∀ c, isIdentChar c = true ∨ c = '.' → top c) : Balanced brackets top dotted.text := by
  refine .of_ordinary ?_
  intro c hc
  refine ⟨?_, htop c (mem_text hc)⟩
  rcases mem_text hc with hc | rfl
  · exact isOrdinary_of_identChar hc
  · decide

/-- A dot parts two words, so that no reserved word stands in a dotted name. -/
theorem avoids (dotted : Dotted reserved) : Avoids reserved dotted.text := by
  obtain ⟨first, others⟩ := dotted
  show Avoids reserved (first.chars ++ others.flatMap fun ident => '.' :: ident.chars)
  induction others generalizing first with
  | nil =>
      rw [List.flatMap_nil, List.append_nil]
      exact first.avoids
  | cons second rest ih =>
      rw [List.flatMap_cons, List.cons_append]
      exact first.avoids.append_cons (by decide) (ih second)

/-- A character that is in no identifier and is no dot is not in a dotted name. -/
theorem not_mem (dotted : Dotted reserved) {c : Char} (hc : isIdentChar c = false)
    (hdot : c ≠ '.') : c ∉ dotted.text := by
  intro hmem
  rcases mem_text hmem with h | h
  · rw [hc] at h
    exact Bool.false_ne_true h
  · exact hdot h

/-- The last identifier of a dotted name, which is its name without qualifiers. -/
def last (dotted : Dotted reserved) : Ident reserved :=
  (dotted.first :: dotted.others).getLast (List.cons_ne_nil _ _)

/-- The simple name of a dotted name is its last part. -/
theorem simpleName_text (dotted : Dotted reserved) :
    simpleName dotted.text = dotted.last.chars := by
  obtain ⟨first, others⟩ := dotted
  show simpleName (first.chars ++ others.flatMap fun ident => '.' :: ident.chars) = _
  induction others generalizing first with
  | nil =>
      rw [List.flatMap_nil, List.append_nil]
      exact simpleName_of_not_mem (first.not_mem (by decide))
  | cons second rest ih =>
      rw [List.flatMap_cons, List.cons_append, simpleName_append_dot, ih second]
      rfl

/-- A dotted name in a base list counts without its qualifiers and has no arguments. -/
theorem baseAndArguments_text (dotted : Dotted reserved) :
    baseAndArguments dotted.text = (dotted.last.chars, []) := by
  have hangle : indexOf? ['<'] dotted.text = none :=
    indexOf?_of_not_mem (dotted.not_mem (by decide) (by decide))
  unfold baseAndArguments
  rw [hangle]
  show (simpleName dotted.text, []) = _
  rw [simpleName_text]

end Dotted

end ClassDiagram
