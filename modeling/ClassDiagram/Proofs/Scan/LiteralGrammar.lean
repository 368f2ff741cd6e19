import ClassDiagram.Proofs.Scan.Places

/-!
# The grammar of literals

A literal is at most two marks, an opening quote and a body. The body is a sequence of units with an
ending behind them, and what a unit and an ending may be depends on the marks alone: with `@` among
them a doubled quote is a unit, without it a backslash makes one with the character behind it. An
ending may look at what follows the literal, but not beyond the first character of that.

Reading finds exactly the literals of this grammar. As it finds at most one at a place, the grammar is
unambiguous, and as a literal is never empty, every scan goes forward.

* `Made`: a sequence of units with an ending behind them, and `Made.induct`.
* `verbatimBody_eq_iff`, `escapedBody_eq_iff`: the two kinds of bodies.
* `read?_eq_some_iff_grammar`: which literal is read.
* `endAt?_grammar`: where a literal begins and where it ends.
-/

namespace ClassDiagram

namespace Literal

/-! ## Sequences of units -/

section Made

variable {unit : Text → Prop} {ending : Text → Text → Prop} {body rest : Text}

/-- Whether a body consists of units and an ending that may stand before `rest`. -/
def Made (unit : Text → Prop) (ending : Text → Text → Prop) (body rest : Text) : Prop :=
  ∃ (units : List Text) (closing : Text),
    body = units.flatten ++ closing ∧ (∀ part ∈ units, unit part) ∧ ending closing rest

theorem Made.of_ending {closing : Text} (h : ending closing rest) : Made unit ending closing rest :=
  ⟨[], closing, rfl, List.forall_mem_nil _, h⟩

theorem Made.cons {part : Text} (hpart : unit part) (h : Made unit ending body rest) :
    Made unit ending (part ++ body) rest := by
  obtain ⟨units, closing, rfl, hunits, hclosing⟩ := h
  refine ⟨part :: units, closing, ?_, List.forall_mem_cons.mpr ⟨hpart, hunits⟩, hclosing⟩
  rw [List.flatten_cons, List.append_assoc]

/-- What holds of the endings and is kept by a unit in front holds of all bodies. -/
theorem Made.induct {motive : Text → Prop} (last : ∀ closing, ending closing rest → motive closing)
    (step : ∀ part body, unit part → motive body → motive (part ++ body))
    (h : Made unit ending body rest) : motive body := by
  obtain ⟨units, closing, rfl, hunits, hclosing⟩ := h
  induction units with
  | nil => exact last closing hclosing
  | cons part units ih =>
      obtain ⟨hpart, hothers⟩ := List.forall_mem_cons.mp hunits
      rw [List.flatten_cons, List.append_assoc]
      exact step part _ hpart (ih hothers)

end Made

/-! ## Verbatim bodies -/

/-- A unit of a verbatim body: a doubled quote, or any other character. -/
inductive VerbatimUnit : Text → Prop where
  | doubled : VerbatimUnit ['"', '"']
  | plain {c : Char} (hquote : c ≠ '"') : VerbatimUnit [c]

/-- The ending of a verbatim body: a quote that no other follows, or the end of the text. -/
inductive VerbatimEnding : Text → Text → Prop where
  | closed {rest : Text} (hsingle : rest.head? ≠ some '"') : VerbatimEnding ['"'] rest
  | unfinished : VerbatimEnding [] []

/-- What is split off as a verbatim body is one, before what is left. -/
theorem made_verbatimBody (text : Text) :
    Made VerbatimUnit VerbatimEnding (verbatimBody text).1 (verbatimBody text).2 := by
  fun_induction verbatimBody text with
  | case1 => exact .of_ending .unfinished
  | case2 rest ih => exact .cons .doubled ih
  | case3 rest hdouble =>
      refine .of_ending (.closed fun hhead => ?_)
      obtain ⟨later, rfl⟩ := List.head?_eq_some_iff.mp hhead
      exact hdouble later rfl
  | case4 c rest hdouble hquote ih => exact .cons (.plain hquote) ih

/-- A verbatim body is split off, where the units in front of its ending close nothing. -/
theorem Made.verbatimBody {body rest : Text} (h : Made VerbatimUnit VerbatimEnding body rest) :
    Literal.verbatimBody (body ++ rest) = (body, rest) := by
  refine h.induct (motive := fun body => Literal.verbatimBody (body ++ rest) = (body, rest)) ?_ ?_
  · intro closing hclosing
    cases hclosing with
    | closed hsingle => exact verbatimBody_append_quote List.not_mem_nil hsingle
    | unfinished => rfl
  · intro part body hpart ih
    cases hpart with
    | doubled =>
        show Literal.verbatimBody ('"' :: '"' :: (body ++ rest)) = _
        rw [Literal.verbatimBody, ih]
        rfl
    | @plain c hquote =>
        show Literal.verbatimBody (c :: (body ++ rest)) = _
        rw [Literal.verbatimBody, ih]
        · rfl
        · exact fun later hc _ => hquote hc
        · exact hquote

/-- A text is split behind what is a verbatim body before the rest of it. -/
theorem verbatimBody_eq_iff {body rest : Text} :
    verbatimBody (body ++ rest) = (body, rest) ↔ Made VerbatimUnit VerbatimEnding body rest := by
  refine ⟨fun h => ?_, Made.verbatimBody⟩
  have hmade := made_verbatimBody (body ++ rest)
  rwa [h] at hmade

/-! ## Escaped bodies -/

/-- A unit of an escaped body: a backslash with the character behind it, or any character but a
backslash, the quote and, unless the quote is a backtick, a line break. -/
inductive EscapedUnit (quote : Char) : Text → Prop where
  | pair (c : Char) : EscapedUnit quote ['\\', c]
  | plain {c : Char} (hescape : c ≠ '\\') (hquote : c ≠ quote)
      (hbreak : c ≠ '\n' ∨ quote = '\x60') : EscapedUnit quote [c]

/-- The ending of an escaped body: the quote, a line break before which it stops unless the quote is a
backtick, or the end of the text, behind a backslash or not. -/
inductive EscapedEnding (quote : Char) : Text → Text → Prop where
  | closed (rest : Text) : EscapedEnding quote [quote] rest
  | broken (hquote : quote ≠ '\x60') (rest : Text) : EscapedEnding quote [] ('\n' :: rest)
  | unfinished : EscapedEnding quote [] []
  | dangling : EscapedEnding quote ['\\'] []

/-- What is split off as an escaped body is one, before what is left. -/
theorem made_escapedBody (quote : Char) (text : Text) :
    Made (EscapedUnit quote) (EscapedEnding quote) (escapedBody quote text).1
      (escapedBody quote text).2 := by
  fun_induction escapedBody quote text with
  | case1 => exact .of_ending .unfinished
  | case2 c rest ih => exact .cons (.pair c) ih
  | case3 rest hescape => exact .of_ending (.closed rest)
  | case4 c rest hescape hquote hbreak =>
      obtain ⟨rfl, hspans⟩ := hbreak
      exact .of_ending (.broken hspans rest)
  | case5 c rest hescape hquote hbreak ih =>
      by_cases hc : c = '\\'
      -- a backslash that escapes nothing is the last character of the text
      · cases rest with
        | nil =>
            subst hc
            exact .of_ending .dangling
        | cons d rest => exact absurd rfl (hescape d rest hc)
      · have hline : c ≠ '\n' ∨ quote = '\x60' := by
          by_cases hspans : quote = '\x60'
          · exact Or.inr hspans
          · exact Or.inl fun heq => hbreak ⟨heq, hspans⟩
        exact .cons (.plain hc hquote hline) ih

/-- An escaped body is split off, where the units in front of its ending close nothing. -/
theorem Made.escapedBody {quote : Char} (hquote : isQuote quote = true) {body rest : Text}
    (h : Made (EscapedUnit quote) (EscapedEnding quote) body rest) :
    Literal.escapedBody quote (body ++ rest) = (body, rest) := by
  have hslash : quote ≠ '\\' := ne_backslash_of_quote hquote
  have hline : '\n' ≠ quote := by
    rintro rfl
    exact absurd hquote (by decide)
  refine h.induct (motive := fun body => Literal.escapedBody quote (body ++ rest) = (body, rest))
    ?_ ?_
  · intro closing hclosing
    -- the body ends at its quote, at a line break, or with the text
    cases hclosing with
    | closed =>
        rw [List.singleton_append, Literal.escapedBody, if_pos rfl]
        exact fun d later heq => absurd heq hslash
    | broken hspans later =>
        rw [List.nil_append, Literal.escapedBody, if_neg hline, if_pos ⟨rfl, hspans⟩]
        exact fun d more heq => absurd heq (by decide)
    | unfinished => rfl
    | dangling =>
        rw [List.append_nil, Literal.escapedBody, if_neg (Ne.symm hslash), if_neg (by simp)]
        · rfl
        · simp
  · intro part body hpart ih
    cases hpart with
    | pair c =>
        show Literal.escapedBody quote ('\\' :: c :: (body ++ rest)) = _
        rw [Literal.escapedBody, ih]
        rfl
    | @plain c hescape hother hbreak =>
        have hstays : ¬(c = '\n' ∧ quote ≠ '\x60') := fun hc => hbreak.elim (· hc.1) hc.2
        show Literal.escapedBody quote (c :: (body ++ rest)) = _
        rw [Literal.escapedBody, if_neg hother, if_neg hstays, ih]
        · rfl
        · exact fun d later hc => absurd hc hescape

/-- A text is split behind what is an escaped body before the rest of it. -/
theorem escapedBody_eq_iff {quote : Char} (hquote : isQuote quote = true) {body rest : Text} :
    escapedBody quote (body ++ rest) = (body, rest) ↔
      Made (EscapedUnit quote) (EscapedEnding quote) body rest := by
  refine ⟨fun h => ?_, Made.escapedBody hquote⟩
  have hmade := made_escapedBody quote (body ++ rest)
  rwa [h] at hmade

/-! ## Literals -/

/-- Whether a literal of the grammar may stand before `rest`. -/
structure Grammatical (value : Literal) (rest : Text) : Prop where
  opens : Opens value.marks value.quote
  verbatim : '@' ∈ value.marks → Made VerbatimUnit VerbatimEnding value.body rest
  escaped : '@' ∉ value.marks →
    Made (EscapedUnit value.quote) (EscapedEnding value.quote) value.body rest

/-- Reading finds exactly the literals of the grammar. -/
theorem read?_eq_some_iff_grammar {text rest : Text} {value : Literal} :
    read? text = some (value, rest) ↔ text = value.chars ++ rest ∧ Grammatical value rest := by
  rw [read?_eq_some_iff]
  constructor
  · rintro ⟨hopens, htext, hsplit⟩
    refine ⟨htext, hopens, fun hverbatim => ?_, fun hescaped => ?_⟩
    · rw [splitBody, if_pos hverbatim] at hsplit
      exact verbatimBody_eq_iff.mp hsplit
    · rw [splitBody, if_neg hescaped] at hsplit
      exact (escapedBody_eq_iff hopens.isQuote).mp hsplit
  · rintro ⟨htext, hvalue⟩
    refine ⟨hvalue.opens, htext, ?_⟩
    rw [splitBody]
    split
    · rename_i hverbatim
      exact verbatimBody_eq_iff.mpr (hvalue.verbatim hverbatim)
    · rename_i hescaped
      exact (escapedBody_eq_iff hvalue.opens.isQuote).mpr (hvalue.escaped hescaped)

/-- Whether a literal of the grammar stands between two places of a text. -/
def Spans (text : Text) (place stop : Nat) : Prop :=
  ∃ value rest, text.drop place = value.chars ++ rest ∧ place + value.chars.length = stop ∧
    Grammatical value rest

/-- A literal begins where marks and a quote open one. -/
theorem endAt?_isSome_iff {text : Text} {place : Nat} :
    (endAt? text place).isSome = true ↔
      ∃ marks quote rest, text.drop place = marks ++ quote :: rest ∧ Opens marks quote := by
  constructor
  · intro h
    obtain ⟨stop, hend⟩ := Option.isSome_iff_exists.mp h
    obtain ⟨value, rest, hread, -⟩ := endAt?_eq_some_iff.mp hend
    obtain ⟨hopens, htext, -⟩ := read?_eq_some_iff.mp hread
    refine ⟨value.marks, value.quote, value.body ++ rest, ?_, hopens⟩
    rw [htext, chars, List.append_assoc, List.cons_append]
  · rintro ⟨marks, quote, rest, htext, hopens⟩
    have hread := hopens.read? rest
    rw [← htext] at hread
    exact Option.isSome_iff_exists.mpr ⟨_, endAt?_eq_some_iff.mpr ⟨_, _, hread, rfl⟩⟩

/-- Where a literal ends, at every place of every text. If one begins at a place, it ends behind that
place and not behind the end of the text. One begins exactly where at most two marks stand before a
quote, a double one if there are marks; a quote is no mark, so that these are all the marks there. And
it ends exactly where a literal of the grammar does. -/
theorem endAt?_grammar (text : Text) (place : Nat) :
    (∀ stop, endAt? text place = some stop → place < stop ∧ stop ≤ text.length) ∧
      ((endAt? text place).isSome = true ↔
        ∃ marks quote rest, text.drop place = marks ++ quote :: rest ∧ Opens marks quote) ∧
      ∀ stop, endAt? text place = some stop ↔ Spans text place stop := by
  refine ⟨fun stop h => lt_of_endAt? h, endAt?_isSome_iff, fun stop => ?_⟩
  rw [endAt?_eq_some_iff]
  constructor
  · rintro ⟨value, rest, hread, hstop⟩
    obtain ⟨htext, hvalue⟩ := read?_eq_some_iff_grammar.mp hread
    exact ⟨value, rest, htext, hstop, hvalue⟩
  · rintro ⟨value, rest, htext, hstop, hvalue⟩
    exact ⟨value, rest, read?_eq_some_iff_grammar.mpr ⟨htext, hvalue⟩, hstop⟩

/-- Doubled quotes close nothing, so that this literal is never finished. -/
example : endAt? "x = $@\"a\"\"".toList 4 = some 10 := by decide

/-- A literal stops before the line break, but not at an escaped one. -/
example : endAt? "'a\\\nb\nc'".toList 0 = some 5 := by decide

end Literal

end ClassDiagram
