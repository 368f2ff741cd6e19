import ClassDiagram.Text.Basic

/-!
# Literals

String and character literals are opaque to every scanner. A literal is cut from the front of a
text: up to two marks `@` or `$`, an opening quote, and a body that runs up to and including the
closing quote.

* With `@` among the marks the literal is verbatim: a doubled quote stands for itself.
* Otherwise a backslash escapes the character behind it, and only a backtick literal may span
  lines: any other ends before the line break.
* An unterminated literal runs to the end of the text.
* `eq_chars_append_of_read?`: cutting a literal loses nothing, so what remains is shorter.
-/

namespace ClassDiagram

/-- A literal: its marks, its opening quote and all that stands behind that, the closing quote
included if there is one. -/
structure Literal where
  marks : Text
  quote : Char
  body : Text
  deriving DecidableEq, Repr

namespace Literal

/-- The characters of a literal. -/
def chars (literal : Literal) : Text := literal.marks ++ literal.quote :: literal.body

/-- A mark that may stand before a double quote: `@` for verbatim, `$` for interpolated. -/
def isMark (c : Char) : Bool := c == '@' || c == '$'

/-- The three quotes. -/
def isQuote (c : Char) : Bool := c == '"' || c == '\'' || c == '\x60'

/-- Splits behind the closing quote of a verbatim literal, given what follows its opening quote. -/
def verbatimBody : Text → Text × Text
  | [] => ([], [])
  | '"' :: '"' :: rest => (('"' :: '"' :: (verbatimBody rest).1), (verbatimBody rest).2)
  | '"' :: rest => (['"'], rest)
  | c :: rest => (c :: (verbatimBody rest).1, (verbatimBody rest).2)

/-- Splits behind the closing quote of an escaped literal, given what follows its opening quote. -/
def escapedBody (quote : Char) : Text → Text × Text
  | [] => ([], [])
  | '\\' :: c :: rest =>
    ('\\' :: c :: (escapedBody quote rest).1, (escapedBody quote rest).2)
  | c :: rest =>
    if c = quote then ([c], rest)
    -- the line break is left to what follows the literal
    else if c = '\n' ∧ quote ≠ '\x60' then ([], c :: rest)
    else (c :: (escapedBody quote rest).1, (escapedBody quote rest).2)

/-- Cuts the literal at the front of a text, marks included. -/
def read? (text : Text) : Option (Literal × Text) :=
  let marks := (text.take 2).takeWhile isMark
  match text.drop marks.length with
  | [] => none
  | quote :: rest =>
    -- marks count before a double quote only
    if isQuote quote ∧ (marks = [] ∨ quote = '"') then
      let split := if '@' ∈ marks then verbatimBody rest else escapedBody quote rest
      some (⟨marks, quote, split.1⟩, split.2)
    else none

/-- Cuts the literal at the front of a text; unless `marked`, only a literal without marks. -/
def cut? (marked : Bool) : Text → Option (Literal × Text)
  | [] => none
  | c :: rest => if marked || isQuote c then read? (c :: rest) else none

/-- Where the literal at the front of a text ends. -/
def end? (text : Text) : Option Nat := (read? text).map fun (literal, _) => literal.chars.length

/-! ### Nothing is lost -/

theorem verbatimBody_append (text : Text) :
    (verbatimBody text).1 ++ (verbatimBody text).2 = text := by
  fun_induction verbatimBody text <;> simp_all

theorem escapedBody_append (quote : Char) (text : Text) :
    (escapedBody quote text).1 ++ (escapedBody quote text).2 = text := by
  fun_induction escapedBody quote text <;> simp_all

theorem eq_chars_append_of_read? {text : Text} {literal : Literal} {rest : Text}
    (h : read? text = some (literal, rest)) : text = literal.chars ++ rest := by
  simp only [read?] at h
  split at h
  · simp at h
  · rename_i quote tail hdrop
    split at h
    · simp only [Option.some.injEq, Prod.mk.injEq] at h
      obtain ⟨rfl, rfl⟩ := h
      have hmarks : (text.take 2).takeWhile isMark ++ quote :: tail = text := by
        rw [← hdrop]
        exact List.prefix_iff_eq_append.1
          ((List.takeWhile_prefix _).trans (List.take_prefix _ _))
      have hbody : ∀ split : Text × Text, split.1 ++ split.2 = tail →
          text = (text.take 2).takeWhile isMark ++ quote :: split.1 ++ split.2 := by
        intro split hsplit
        rw [List.append_assoc, List.cons_append, hsplit, hmarks]
      by_cases hat : '@' ∈ (text.take 2).takeWhile isMark
      · simpa [chars, hat] using hbody _ (verbatimBody_append tail)
      · simpa [chars, hat] using hbody _ (escapedBody_append quote tail)
    · simp at h

theorem eq_chars_append_of_cut? {marked : Bool} {text : Text} {literal : Literal} {rest : Text}
    (h : cut? marked text = some (literal, rest)) : text = literal.chars ++ rest := by
  cases text with
  | nil => simp [cut?] at h
  | cons c tail =>
    rw [cut?] at h
    split at h
    · exact eq_chars_append_of_read? h
    · simp at h

theorem length_lt_of_cut? {marked : Bool} {text : Text} {literal : Literal} {rest : Text}
    (h : cut? marked text = some (literal, rest)) : rest.length < text.length := by
  rw [eq_chars_append_of_cut? h]
  simp only [chars, List.length_append, List.length_cons]
  omega

end Literal

end ClassDiagram
