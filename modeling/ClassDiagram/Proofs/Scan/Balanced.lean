import ClassDiagram.Proofs.Scan.Level
import ClassDiagram.Scan.Comment

/-!
# Balanced texts

A text is balanced if its brackets pair up, its equals signs are those of arrows, and its double
quotes enclose balanced text. Its pieces are level, whatever follows it, so that every scanner passes
over it.

* `Own`: a text that has pieces of its own, with one lemma for each way to put texts together.
* `Balanced.own`, `Balanced.level_chars`: the pieces of a balanced text, and its characters where
  quotes do not count, are level.
* `topSegments_balanced`, `topLevelFrom?_balanced`: what follows for the scanners.
* `splitGroup_balanced`: a group is split off exactly.
* `Uncut`, `splitTop_uncut`: a list of texts that are not cut is split into them.
* `splitTop_join`, `topLevel?_balanced`, `bodyStart?_append`: what follows for whole texts.
-/

namespace ClassDiagram

namespace Text

/-! ## Pieces -/

/-- Without a mark at the front, a literal is a quote and an escaped body. -/
theorem read?_of_unmarked {c : Char} (hmark : Literal.isMark c = false) (rest : Text) :
    Literal.read? (c :: rest) =
      if Literal.isQuote c = true then
        some (⟨[], c, (Literal.escapedBody c rest).1⟩, (Literal.escapedBody c rest).2)
      else none := by
  have hmarks : List.takeWhile Literal.isMark (List.take 2 (c :: rest)) = [] := by
    rw [List.take_succ_cons, List.takeWhile_cons_of_neg (by simp [hmark])]
  simp only [Literal.read?, hmarks, List.length_nil, List.drop_zero, true_or, and_true,
    List.not_mem_nil, if_false]

/-- No literal begins with a character that is neither a quote nor a mark. -/
theorem cut?_of_other {c : Char} (hquote : Literal.isQuote c = false)
    (hmark : Literal.isMark c = false) (marked : Bool) (rest : Text) :
    Literal.cut? marked (c :: rest) = none := by
  rw [Literal.cut?, read?_of_unmarked hmark, hquote]
  split <;> rfl

/-- A character that is neither quote nor mark is a piece of its own. -/
theorem pieces_cons {c : Char} (hquote : Literal.isQuote c = false)
    (hmark : Literal.isMark c = false) (marked : Bool) (rest : Text) :
    pieces marked (c :: rest) = .char c :: pieces marked rest := by
  rw [pieces]
  split
  · rename_i hsome
    rw [cut?_of_other hquote hmark] at hsome
    exact absurd hsome (by simp)
  · rfl

/-- A literal without marks ends at its quote, if nothing before that ends or escapes it. -/
theorem escapedBody_append_quote {quote : Char} (hquote : quote ≠ '\\') {inner : Text}
    (h : ∀ c ∈ inner, c ≠ quote ∧ c ≠ '\\' ∧ c ≠ '\n') (rest : Text) :
    Literal.escapedBody quote (inner ++ quote :: rest) = (inner ++ [quote], rest) := by
  induction inner with
  | nil =>
      rw [List.nil_append, Literal.escapedBody, if_pos rfl]
      · rfl
      · intro d tail heq
        exact absurd heq hquote
  | cons c inner ih =>
      obtain ⟨hend, hescape, hbreak⟩ := h c List.mem_cons_self
      rw [List.cons_append, Literal.escapedBody, if_neg hend, if_neg (fun h => hbreak h.1),
        ih fun d hd => h d (List.mem_cons_of_mem _ hd)]
      · rfl
      · intro d tail heq
        exact absurd heq hescape

/-- What may stand in a double-quoted literal without ending or escaping it. -/
def isQuotable (c : Char) : Bool := !(c == '"' || c == '\\' || c == '\n')

theorem isQuotable_iff {c : Char} : isQuotable c = true ↔ c ≠ '"' ∧ c ≠ '\\' ∧ c ≠ '\n' := by
  simp [isQuotable, and_assoc]

/-- A double-quoted literal is cut off at its closing quote. -/
theorem cut?_quoted {inner : Text} (h : ∀ c ∈ inner, isQuotable c = true) (marked : Bool)
    (rest : Text) :
    Literal.cut? marked ('"' :: (inner ++ '"' :: rest)) =
      some (⟨[], '"', inner ++ ['"']⟩, rest) := by
  have hquote : (marked || Literal.isQuote '"') = true := by cases marked <;> rfl
  rw [Literal.cut?, if_pos hquote, read?_of_unmarked (by decide), if_pos (by decide),
    escapedBody_append_quote (by decide) fun c hc => isQuotable_iff.mp (h c hc)]

/-- A quoted text is one piece. -/
theorem pieces_quoted {inner : Text} (h : ∀ c ∈ inner, isQuotable c = true) (marked : Bool)
    (rest : Text) :
    pieces marked ('"' :: (inner ++ '"' :: rest)) =
      .literal ⟨[], '"', inner ++ ['"']⟩ :: pieces marked rest := by
  rw [pieces]
  split
  · rename_i hsome
    rw [cut?_quoted h] at hsome
    cases hsome
    rfl
  · rename_i hnone
    rw [cut?_quoted h] at hnone
    exact absurd hnone (by simp)

/-! ## Balanced texts -/

/-- A character of which no scanner takes notice: no quote, mark, bracket or equals sign. -/
def isOrdinary (c : Char) : Bool :=
  !(Literal.isQuote c || Literal.isMark c || c == '=' || Brackets.all.opens c ||
    Brackets.all.closes false c)

/-- A text whose brackets, all among `brackets`, pair up. All characters outside of brackets and
the outermost brackets themselves satisfy `top`. -/
inductive Balanced (brackets : Brackets) : (Char → Prop) → Text → Prop where
  | nil {top : Char → Prop} : Balanced brackets top []
  | char {top : Char → Prop} {c : Char} {rest : Text} : isOrdinary c = true → top c →
      Balanced brackets top rest → Balanced brackets top (c :: rest)
  | arrow {top : Char → Prop} {rest : Text} : top '=' → top '>' →
      Balanced brackets top rest → Balanced brackets top ('=' :: '>' :: rest)
  | group {top : Char → Prop} {opener closer : Char} {inner rest : Text} :
      closer? opener = some closer → brackets.opens opener = true → top opener → top closer →
      Balanced brackets (fun _ => True) inner → Balanced brackets top rest →
      Balanced brackets top (opener :: (inner ++ closer :: rest))
  | quoted {top : Char → Prop} {inner rest : Text} : top '"' →
      (inner ≠ [] ∧ ∀ c ∈ inner, isQuotable c = true) → Balanced brackets top inner →
      Balanced brackets top rest → Balanced brackets top ('"' :: (inner ++ '"' :: rest))

namespace Balanced

variable {brackets : Brackets} {top : Char → Prop} {text other : Text}

/-- The characters outside of brackets may be taken from a wider class. -/
theorem mono {wider : Char → Prop} (h : Balanced brackets top text)
    (hsub : ∀ c, top c → wider c) : Balanced brackets wider text := by
  induction h generalizing wider with
  | nil => exact .nil
  | char hc htop _ ih => exact .char hc (hsub _ htop) (ih hsub)
  | arrow he hg _ ih => exact .arrow (hsub _ he) (hsub _ hg) (ih hsub)
  | group hpair hopen ho hc hinner _ _ ih =>
      exact .group hpair hopen (hsub _ ho) (hsub _ hc) hinner (ih hsub)
  | quoted hq hin _ _ ihin ih => exact .quoted (hsub _ hq) hin (ihin hsub) (ih hsub)

/-- A balanced text may stand inside brackets, where any character is allowed. -/
theorem inside (h : Balanced brackets top text) : Balanced brackets (fun _ => True) text :=
  h.mono fun _ _ => trivial

/-- Balanced texts stay balanced side by side. -/
theorem append (h : Balanced brackets top text) (hother : Balanced brackets top other) :
    Balanced brackets top (text ++ other) := by
  induction h with
  | nil => exact hother
  | char hc htop _ ih => exact .char hc htop (ih hother)
  | arrow he hg _ ih => exact .arrow he hg (ih hother)
  | group hpair hopen ho hc hinner _ _ ih =>
      rw [List.cons_append, List.append_assoc, List.cons_append]
      exact .group hpair hopen ho hc hinner (ih hother)
  | quoted hq hin hinner _ _ ih =>
      rw [List.cons_append, List.append_assoc, List.cons_append]
      exact .quoted hq hin hinner (ih hother)

/-- A text of ordinary characters opens no bracket. -/
theorem of_ordinary (h : ∀ c ∈ text, isOrdinary c = true ∧ top c) :
    Balanced brackets top text := by
  induction text with
  | nil => exact .nil
  | cons c rest ih =>
      have hc := h c List.mem_cons_self
      exact .char hc.1 hc.2 (ih fun d hd => h d (List.mem_cons_of_mem _ hd))

/-- A group on its own. -/
theorem grouped {opener closer : Char} (hpair : closer? opener = some closer)
    (hopen : brackets.opens opener = true) (ho : top opener) (hc : top closer)
    (h : Balanced brackets (fun _ => True) text) :
    Balanced brackets top (opener :: (text ++ [closer])) :=
  .group hpair hopen ho hc h .nil

end Balanced

/-! ## What a character does to a scanner -/

section Characters

variable {c opener closer : Char}

theorem not_quote_of_ordinary (h : isOrdinary c = true) : Literal.isQuote c = false := by
  simp only [isOrdinary, Bool.not_eq_true', Bool.or_eq_false_iff] at h
  exact h.1.1.1.1

theorem not_mark_of_ordinary (h : isOrdinary c = true) : Literal.isMark c = false := by
  simp only [isOrdinary, Bool.not_eq_true', Bool.or_eq_false_iff] at h
  exact h.1.1.1.2

theorem isInert_of_ordinary (h : isOrdinary c = true) : isInert c = true := by
  simp only [isOrdinary, Bool.not_eq_true', Bool.or_eq_false_iff] at h
  simp [isInert, h]

theorem not_equals_of_ordinary (h : isOrdinary c = true) : (c == '=') = false :=
  not_equals_of_inert (isInert_of_ordinary h)

/-- An ordinary character is none of the eight brackets. -/
theorem ne_bracket_of_ordinary (h : isOrdinary c = true) :
    (c ≠ '(' ∧ c ≠ '[' ∧ c ≠ '\x7b' ∧ c ≠ '<') ∧ c ≠ ')' ∧ c ≠ ']' ∧ c ≠ '\x7d' ∧ c ≠ '>' :=
  ne_bracket_of_inert (isInert_of_ordinary h)

theorem depthAfter_of_ordinary (h : isOrdinary c = true) (brackets : Brackets) (depth : Nat)
    (afterEquals : Bool) : brackets.depthAfter depth afterEquals c = depth :=
  depthAfter_of_inert (isInert_of_ordinary h) brackets depth afterEquals

theorem opener_facts (h : closer? opener = some closer) :
    Literal.isQuote opener = false ∧ Literal.isMark opener = false ∧ (opener == '=') = false := by
  rcases pair_cases h with ⟨rfl, rfl⟩ | ⟨rfl, rfl⟩ | ⟨rfl, rfl⟩ | ⟨rfl, rfl⟩ <;> decide

theorem closer_facts (h : closer? opener = some closer) :
    Literal.isQuote closer = false ∧ Literal.isMark closer = false ∧ (closer == '=') = false := by
  rcases pair_cases h with ⟨rfl, rfl⟩ | ⟨rfl, rfl⟩ | ⟨rfl, rfl⟩ | ⟨rfl, rfl⟩ <;> decide

end Characters

/-! ## Pieces of their own -/

/-- A text that has pieces of its own, whatever follows it, of which `holds` holds. -/
def Own (holds : List Piece → Prop) (text : Text) : Prop :=
  ∀ marked, ∃ own : List Piece, holds own ∧ own.flatMap Piece.chars = text ∧
    ∀ rest, pieces marked (text ++ rest) = own ++ pieces marked rest

section Own

variable {holds others both : List Piece → Prop} {brackets : Brackets} {top : Char → Prop}
  {text other : Text}

/-- What follows from what holds of a text's own pieces holds of them too. -/
theorem Own.mono (h : Own holds text) (hsub : ∀ own, holds own → others own) :
    Own others text := by
  intro marked
  obtain ⟨own, hown, hspell⟩ := h marked
  exact ⟨own, hsub own hown, hspell⟩

/-- The pieces of two texts are their own pieces one after the other. -/
theorem Own.append (hboth : ∀ own behind, holds own → others behind → both (own ++ behind))
    (h : Own holds text) (hother : Own others other) : Own both (text ++ other) := by
  intro marked
  obtain ⟨own, hown, hspell, hpieces⟩ := h marked
  obtain ⟨behind, hbehind, hspellBehind, hpiecesBehind⟩ := hother marked
  refine ⟨own ++ behind, hboth own behind hown hbehind, ?_, fun rest => ?_⟩
  · rw [List.flatMap_append, hspell, hspellBehind]
  · rw [List.append_assoc, hpieces, hpiecesBehind, List.append_assoc]

/-- What stands in brackets may be anything level. -/
theorem Own.grouped {opener closer : Char} (hpair : closer? opener = some closer)
    (hopen : brackets.opens opener = true) (ho : top opener) (hc : top closer)
    (h : Own (Level brackets fun _ => True) text) :
    Own (Level brackets top) (opener :: (text ++ [closer])) := by
  obtain ⟨hoq, hom, -⟩ := opener_facts hpair
  obtain ⟨hcq, hcm, -⟩ := closer_facts hpair
  intro marked
  obtain ⟨own, hlevel, hspell, hpieces⟩ := h marked
  refine ⟨.char opener :: (own ++ [.char closer]), .group hpair hopen ho hc hlevel .nil, ?_,
    fun rest => ?_⟩
  · rw [List.flatMap_cons, List.flatMap_append, hspell]
    rfl
  · rw [List.cons_append, List.append_assoc, List.singleton_append, pieces_cons hoq hom, hpieces,
      pieces_cons hcq hcm, List.cons_append, List.append_assoc]
    rfl

/-- What stands in double quotes may be anything that does not end them. -/
theorem own_quoted (h : ∀ c ∈ text, isQuotable c = true) :
    Own (Level brackets top) ('"' :: (text ++ ['"'])) := by
  intro marked
  refine ⟨[.literal ⟨[], '"', text ++ ['"']⟩], .literal .nil, by simp [Piece.chars, Literal.chars],
    fun rest => ?_⟩
  rw [List.cons_append, List.append_assoc, List.singleton_append, pieces_quoted h]
  rfl

/-- A plain assignment between two texts. -/
theorem Own.assign (h : Own (Level brackets top) text)
    (hother : Own (Assigning brackets top) other) :
    Own (Assigning brackets top) (text ++ '=' :: ' ' :: other) := by
  intro marked
  obtain ⟨own, hown, hspell, hpieces⟩ := h marked
  obtain ⟨behind, hbehind, hspellBehind, hpiecesBehind⟩ := hother marked
  refine ⟨own ++ .char '=' :: .char ' ' :: behind, .assign hown hbehind, ?_, fun rest => ?_⟩
  · rw [List.flatMap_append, List.flatMap_cons, List.flatMap_cons, hspell, hspellBehind]
    rfl
  · rw [List.append_assoc, List.cons_append, List.cons_append, hpieces,
      pieces_cons (by decide) (by decide), pieces_cons (by decide) (by decide), hpiecesBehind,
      List.append_assoc, List.cons_append, List.cons_append]

end Own

/-! ## Balanced texts are level -/

namespace Balanced

variable {brackets : Brackets} {top : Char → Prop} {text : Text}

/-- A balanced text has level pieces of its own. -/
theorem own (h : Balanced brackets top text) : Own (Level brackets top) text := by
  intro marked
  induction h with
  | nil => exact ⟨[], .nil, rfl, fun _ => rfl⟩
  | @char _ c _ hc htop _ ih =>
      obtain ⟨own, hlevel, hspell, hpieces⟩ := ih
      refine ⟨.char c :: own, .char (isInert_of_ordinary hc) htop hlevel, ?_, fun rest => ?_⟩
      · rw [List.flatMap_cons, hspell]
        rfl
      · rw [List.cons_append, pieces_cons (not_quote_of_ordinary hc) (not_mark_of_ordinary hc),
          hpieces]
        rfl
  | arrow he hg _ ih =>
      obtain ⟨own, hlevel, hspell, hpieces⟩ := ih
      refine ⟨.char '=' :: .char '>' :: own, .arrow he hg hlevel, ?_, fun rest => ?_⟩
      · rw [List.flatMap_cons, List.flatMap_cons, hspell]
        rfl
      · rw [List.cons_append, List.cons_append, pieces_cons (by decide) (by decide),
          pieces_cons (by decide) (by decide), hpieces]
        rfl
  | @group _ opener closer _ _ hpair hopen ho hc _ _ ihinner ih =>
      obtain ⟨own, hlevel, hspell, hpieces⟩ := ih
      obtain ⟨inside, hlevelInside, hspellInside, hpiecesInside⟩ := ihinner
      -- brackets are no quotes, so that each of them is a piece
      obtain ⟨hoq, hom, -⟩ := opener_facts hpair
      obtain ⟨hcq, hcm, -⟩ := closer_facts hpair
      refine ⟨.char opener :: (inside ++ .char closer :: own),
        .group hpair hopen ho hc hlevelInside hlevel, ?_, fun rest => ?_⟩
      · rw [List.flatMap_cons, List.flatMap_append, List.flatMap_cons, hspell, hspellInside]
        rfl
      · rw [List.cons_append, List.append_assoc, List.cons_append, pieces_cons hoq hom,
          hpiecesInside, pieces_cons hcq hcm, hpieces, List.cons_append, List.append_assoc]
        rfl
  | @quoted _ inner _ _ hin _ _ _ ih =>
      obtain ⟨own, hlevel, hspell, hpieces⟩ := ih
      refine ⟨.literal ⟨[], '"', inner ++ ['"']⟩ :: own, .literal hlevel, ?_, fun rest => ?_⟩
      · rw [List.flatMap_cons, hspell]
        simp [Piece.chars, Literal.chars]
      · rw [List.cons_append, List.append_assoc, List.cons_append, pieces_quoted hin.2, hpieces]
        rfl

/-- Where quotes are characters like others, what they enclose is level as well. -/
theorem level_chars (h : Balanced brackets top text) :
    Level brackets top (text.map Piece.char) := by
  induction h with
  | nil => exact .nil
  | char hc htop _ ih => exact .char (isInert_of_ordinary hc) htop ih
  | arrow he hg _ ih => exact .arrow he hg ih
  | group hpair hopen ho hc _ _ ihinner ih =>
      rw [List.map_cons, List.map_append, List.map_cons]
      exact .group hpair hopen ho hc ihinner ih
  | quoted hq _ _ _ ihinner ih =>
      rw [List.map_cons, List.map_append, List.map_cons]
      exact .char (by decide) hq (ihinner.append (.char (by decide) hq ih))

end Balanced

/-! ## Cutting at separators -/

section Segments

variable {separates : Char → Bool} {brackets counted : Brackets} {depth : Nat} {marked : Bool}

/-- A balanced text is not cut if no separator stands outside of its brackets. -/
theorem topSegments_balanced {top : Char → Prop} {text : Text} (h : Balanced brackets top text)
    (hsep : depth = 0 → ∀ c, top c → separates c = false) (rest : Text) :
    topSegments separates brackets depth false (pieces marked (text ++ rest)) =
      attach text (topSegments separates brackets depth false (pieces marked rest)) := by
  obtain ⟨own, hlevel, hspell, hpieces⟩ := h.own marked
  rw [hpieces, topSegments_level hlevel hsep, hspell]

@[simp] theorem pieces_nil : pieces marked [] = [] := by
  rw [pieces]
  rfl

/-- A text that is not cut, whatever follows it. -/
def Uncut (separates : Char → Bool) (brackets : Brackets) (text : Text) : Prop :=
  ∀ rest, topSegments separates brackets 0 false (pieces false (text ++ rest)) =
    attach text (topSegments separates brackets 0 false (pieces false rest))

/-- A balanced text is not cut if no character outside of its brackets separates. -/
theorem Balanced.uncut {top : Char → Prop} {text : Text} (h : Balanced brackets top text)
    (hsep : ∀ c, top c → separates c = false) : Uncut separates brackets text :=
  topSegments_balanced h fun _ => hsep

/-- Texts that are not cut are not cut between them either. -/
theorem Uncut.append {text other : Text} (h : Uncut separates brackets text)
    (hother : Uncut separates brackets other) : Uncut separates brackets (text ++ other) := by
  intro rest
  rw [List.append_assoc, h, hother, ← attach_append]

/-- A text with an assignment is not cut if nothing outside of its brackets separates. -/
theorem Own.uncut {top : Char → Prop} {text : Text} (h : Own (Assigning brackets top) text)
    (hsep : ∀ c, top c → separates c = false) (hequals : separates '=' = false)
    (hspace : separates ' ' = false) : Uncut separates brackets text := by
  intro rest
  obtain ⟨own, hown, hspell, hpieces⟩ := h false
  rw [hpieces, topSegments_assigning hown hsep hequals hspace, hspell]

/-- A whole text that is not cut is one segment. -/
theorem Uncut.whole {text : Text} (h : Uncut separates brackets text) :
    topSegments separates brackets 0 false (pieces false text) = [text] := by
  have hall := h []
  rw [List.append_nil, pieces_nil] at hall
  simpa [topSegments, attach] using hall

/-- A balanced text without separators is not cut, whichever brackets count. -/
theorem topSegments_balanced_of_none {top : Char → Prop} {text : Text}
    (h : Balanced brackets top text) (hsep : ∀ c ∈ text, separates c = false) (rest : Text) :
    topSegments separates counted depth false (pieces marked (text ++ rest)) =
      attach text (topSegments separates counted depth false (pieces marked rest)) := by
  obtain ⟨own, hlevel, hspell, hpieces⟩ := h.own marked
  rw [← hspell] at hsep
  rw [hpieces, topSegments_level_of_none hlevel hsep, hspell]

end Segments

/-! ## Searching outside of brackets -/

/-- A search for a plain assignment passes over arrows and over all else. -/
theorem passes_assignment (top : Char → Prop) : Passes ['='] top where
  char := by
    intro c _ hc previous rest
    simp [standsAt, isAssignment, hc]
  arrow := by
    intro _ previous rest
    simp [standsAt, isAssignment]

/-- A search for another sign passes over characters that are not its first one. -/
theorem passes_of_ne {first : Char} {rest : Text} {top : Char → Prop} (hne : first :: rest ≠ ['='])
    (h : ∀ c, top c → c ≠ first) : Passes (first :: rest) top where
  char := by
    intro c hc _ previous behind
    have hfirst : (first == c) = false := beq_eq_false_iff_ne.mpr (h c hc).symm
    simp [standsAt, hne, List.isPrefixOf, hfirst]
  arrow := by
    intro he previous behind
    have hfirst : (first == '=') = false := beq_eq_false_iff_ne.mpr (h '=' he).symm
    simp [standsAt, hne, List.isPrefixOf, hfirst]

section Search

variable {brackets : Brackets} {target : Text} {depth : Nat} {previous : Option Char}

/-- A search passes over a balanced text if its target starts nowhere outside of the brackets. -/
theorem topLevelFrom?_balanced {top : Char → Prop} {text : Text} (h : Balanced brackets top text)
    (hpass : depth = 0 → Passes target top) (hprevious : previous ≠ some '=') (rest : Text) :
    topLevelFrom? target depth previous (text ++ rest) =
      (topLevelFrom? target depth (text.getLast?.or previous) rest).map (· + text.length) := by
  have hpass' := topLevelFrom?_level h.level_chars (by simp) hpass hprevious rest
  rwa [flatMap_chars_map] at hpass'

/-- A target that starts nowhere outside of the brackets is not found. -/
theorem topLevel?_balanced {top : Char → Prop} {text : Text} (h : Balanced brackets top text)
    (hpass : Passes target top) : topLevel? target text = none :=
  topLevel?_level h.level_chars hpass

/-- A target behind a balanced text in which it starts nowhere is found there. -/
theorem topLevel?_append {top : Char → Prop} {text : Text} (h : Balanced brackets top text)
    (hpass : Passes target top) {c : Char} {rest : Text}
    (hstands : standsAt target text.getLast? (c :: rest) = true) :
    topLevel? target (text ++ c :: rest) = some text.length :=
  topLevel?_level_append h.level_chars hpass hstands

/-- There is no assignment in a text whose brackets pair up. -/
theorem beforeAssignment_level {top : Char → Prop} {text : Text}
    (h : Level brackets top (text.map Piece.char)) : beforeAssignment text = text := by
  unfold beforeAssignment
  rw [topLevel?_level h (passes_assignment top)]

/-- There is no assignment in a balanced text. -/
theorem beforeAssignment_balanced {top : Char → Prop} {text : Text}
    (h : Balanced brackets top text) : beforeAssignment text = text :=
  beforeAssignment_level h.level_chars

end Search

/-! ## The brace that opens a body -/

/-- No body starts in a text of ordinary characters. -/
theorem bodyStartFrom?_ordinary {text : Text} (h : ∀ c ∈ text, isOrdinary c = true ∧ c ≠ ';')
    (angles : Bool) (place : Nat) (rest : Text) :
    bodyStartFrom? angles 0 false place (pieces true (text ++ rest)) =
      bodyStartFrom? angles 0 false (place + text.length) (pieces true rest) := by
  induction text generalizing place with
  | nil => rfl
  | cons c others ih =>
      obtain ⟨hc, hsemicolon⟩ := h c List.mem_cons_self
      have hbrace : c ≠ '\x7b' := (ne_bracket_of_ordinary hc).1.2.2.1
      rw [List.cons_append, pieces_cons (not_quote_of_ordinary hc) (not_mark_of_ordinary hc),
        bodyStartFrom?]
      simp only [hbrace, hsemicolon, and_false, if_false, depthAfter_of_ordinary hc,
        not_equals_of_ordinary hc]
      rw [ih fun d hd => h d (List.mem_cons_of_mem _ hd)]
      congr 1
      simp only [List.length_cons]
      omega

/-- The first brace behind signs of no account opens the body. -/
theorem bodyStart?_append {text : Text} (h : ∀ c ∈ text, isOrdinary c = true ∧ c ≠ ';')
    (angles : Bool) (rest : Text) :
    bodyStart? (text ++ '\x7b' :: rest) 0 angles = some text.length := by
  show bodyStartFrom? angles 0 false 0 (pieces true (text ++ '\x7b' :: rest)) = _
  rw [bodyStartFrom?_ordinary h, pieces_cons (by decide) (by decide), bodyStartFrom?,
    if_pos ⟨rfl, rfl⟩, Nat.zero_add]

/-- Where a body begins, there is a brace. -/
theorem brace_of_bodyStartFrom? {angles : Bool} {depth : Nat} {afterEquals : Bool} {place : Nat}
    {pieces : List Piece} {found : Nat}
    (h : bodyStartFrom? angles depth afterEquals place pieces = some found) :
    ∃ front behind, pieces.flatMap Piece.chars = front ++ '\x7b' :: behind ∧
      found = place + front.length := by
  fun_induction bodyStartFrom? angles depth afterEquals place pieces with
  | case1 => exact absurd h (by simp)
  | case2 depth afterEquals place value rest ih =>
      obtain ⟨front, behind, heq, hfound⟩ := ih h
      refine ⟨value.chars ++ front, behind, ?_, ?_⟩
      · rw [List.flatMap_cons, heq, List.append_assoc]
        rfl
      · rw [hfound, List.length_append, Nat.add_assoc]
  | case3 depth afterEquals place c rest hbrace =>
      cases h
      refine ⟨[], rest.flatMap Piece.chars, ?_, rfl⟩
      rw [List.flatMap_cons, ← hbrace.2]
      rfl
  | case4 => exact absurd h (by simp)
  | case5 depth afterEquals place c rest _ _ _ _ ih =>
      obtain ⟨front, behind, heq, hfound⟩ := ih h
      refine ⟨c :: front, behind, ?_, ?_⟩
      · rw [List.flatMap_cons, heq]
        rfl
      · rw [hfound, List.length_cons]
        omega

/-! ## Groups -/

section Groups

variable {brackets : Brackets} {top : Char → Prop} {text inner rest : Text}

/-- A group ends where its contents end. -/
theorem closing?_own (h : Own (Assigning brackets top) inner) {opener closer : Char}
    (hpair : closer? opener = some closer) (rest : Text) :
    closing? (opener :: (inner ++ closer :: rest)) = some (inner.length + 1) := by
  obtain ⟨hoq, hom, -⟩ := opener_facts hpair
  obtain ⟨hcq, hcm, -⟩ := closer_facts hpair
  obtain ⟨own, hown, hspell, hpieces⟩ := h true
  rw [closing?, hpair]
  show closingFrom? opener closer 0 false 0 (pieces true (opener :: (inner ++ closer :: rest))) = _
  rw [pieces_cons hoq hom, hpieces, pieces_cons hcq hcm, closingFrom?_group hown hpair, hspell]

/-- A balanced text does not close the bracket before it. -/
theorem closing?_balanced (h : Balanced brackets top inner) {opener closer : Char}
    (hpair : closer? opener = some closer) (rest : Text) :
    closing? (opener :: (inner ++ closer :: rest)) = some (inner.length + 1) :=
  closing?_own (h.own.mono fun _ => .level) hpair rest

/-- A group at the front of a text is split off exactly. -/
theorem splitGroup_own (h : Own (Assigning brackets top) inner) {opener closer : Char}
    (hpair : closer? opener = some closer) (rest : Text) :
    splitGroup (opener :: (inner ++ closer :: rest)) = (inner, some rest) := by
  unfold splitGroup
  rw [closing?_own h hpair]
  simp

/-- A group in brackets is split from what follows it. -/
theorem splitGroup_balanced (h : Balanced brackets top inner) {opener closer : Char}
    (hpair : closer? opener = some closer) (rest : Text) :
    splitGroup (opener :: (inner ++ closer :: rest)) = (inner, some rest) :=
  splitGroup_own (h.own.mono fun _ => .level) hpair rest

/-- A group that stands behind a front: where it ends, what it holds and what follows it. -/
theorem closingAt?_append (h : Balanced brackets top inner) {opener closer : Char}
    (hpair : closer? opener = some closer) (front rest : Text) :
    closingAt? (front ++ opener :: (inner ++ closer :: rest)) front.length =
      some (inner.length + 1 + front.length) := by
  unfold closingAt?
  rw [List.drop_left, closing?_balanced h hpair]
  rfl

/-- What stands between two brackets, cut out by its places. -/
theorem take_drop_group (front inner rest : Text) (opener closer : Char) :
    ((front ++ opener :: (inner ++ closer :: rest)).take (inner.length + 1 + front.length)).drop
      (front.length + 1) = inner := by
  have hlength : inner.length + 1 + front.length = (front ++ opener :: inner).length := by
    simp only [List.length_append, List.length_cons]
    omega
  have hsplit : front ++ opener :: (inner ++ closer :: rest) =
      (front ++ opener :: inner) ++ closer :: rest := by
    rw [List.append_assoc, List.cons_append]
  rw [hlength, hsplit, List.take_left, ← List.drop_drop, List.drop_left]
  rfl

/-- What stands behind two brackets, cut out by its place. -/
theorem drop_group (front inner rest : Text) (opener closer : Char) :
    (front ++ opener :: (inner ++ closer :: rest)).drop (inner.length + 1 + front.length + 1) =
      rest := by
  have hlength : inner.length + 1 + front.length + 1 =
      (front ++ opener :: (inner ++ [closer])).length := by
    simp only [List.length_append, List.length_cons, List.length_nil]
    omega
  have hsplit : front ++ opener :: (inner ++ closer :: rest) =
      (front ++ opener :: (inner ++ [closer])) ++ rest := by
    simp
  rw [hlength, hsplit, List.drop_left]

end Groups

/-! ## Lists with separators -/

section Lists

variable {separates : Char → Bool} {angles : Bool} {top : Char → Prop} {c : Char}
  {pad lead : Text} {items : List Text}

/-- A list written with a separator and padding is cut at the separators. -/
theorem topSegments_join {brackets : Brackets} (hc : isOrdinary c = true)
    (hsep : separates c = true) (hpad : Uncut separates brackets pad) {first : Text}
    (hfirst : Uncut separates brackets first)
    (hitems : ∀ item ∈ items, Uncut separates brackets item)
    (hlead : Uncut separates brackets lead) :
    topSegments separates brackets 0 false
        (pieces false (lead ++ join (c :: pad) (first :: items))) =
      (lead ++ first) :: items.map (pad ++ ·) := by
  -- behind the first separator, the padding takes the place of what leads
  induction items generalizing first lead with
  | nil =>
      rw [join, List.intercalate_singleton, (hlead.append hfirst).whole]
      rfl
  | cons second rest ih =>
      rw [join, List.intercalate_cons_cons, List.append_assoc, List.cons_append,
        ← List.append_assoc, hlead.append hfirst,
        pieces_cons (not_quote_of_ordinary hc) (not_mark_of_ordinary hc), topSegments,
        depthAfter_of_ordinary hc, not_equals_of_ordinary hc, if_pos ⟨hsep, rfl⟩]
      have hrest := ih (hitems second List.mem_cons_self)
        (fun item hitem => hitems item (List.mem_cons_of_mem _ hitem)) hpad
      rw [join] at hrest
      rw [hrest]
      simp [attach]

/-- The items of a list, if none of them is cut. -/
theorem splitTop_uncut (hc : isOrdinary c = true) (hsep : separates c = true)
    (hpad : ∀ d ∈ pad, isBlank d = true ∧ isOrdinary d = true ∧ separates d = false)
    (hitems : ∀ item ∈ items, Uncut separates ⟨true, angles⟩ item ∧ Tidy item)
    (hlead : ∀ d ∈ lead, isBlank d = true ∧ isOrdinary d = true ∧ separates d = false) :
    splitTop (lead ++ join (c :: pad) items) separates angles = items := by
  have hskip : ∀ {blanks : Text},
      (∀ d ∈ blanks, isBlank d = true ∧ isOrdinary d = true ∧ separates d = false) →
      Uncut separates ⟨true, angles⟩ blanks := fun hblanks =>
    Balanced.uncut (.of_ordinary fun d hd => (hblanks d hd).2) fun _ h => h
  cases items with
  | nil =>
      rw [splitTop, join, List.intercalate_nil, List.append_nil, (hskip hlead).whole,
        List.map_singleton, strip_blanks fun d hd => (hlead d hd).1]
      rfl
  | cons first rest =>
      have hfirst := hitems first List.mem_cons_self
      have hrest : ∀ item ∈ rest, Uncut separates ⟨true, angles⟩ item ∧ Tidy item :=
        fun item hitem => hitems item (List.mem_cons_of_mem _ hitem)
      rw [splitTop, topSegments_join hc hsep (hskip hpad) hfirst.1
        (fun item hitem => (hrest item hitem).1) (hskip hlead), List.map_cons,
        hfirst.2.strip_behind (fun d hd => (hlead d hd).1), List.map_map]
      -- behind a separator each item has its padding before it, which is trimmed off
      have hmap : rest.map (strip ∘ (pad ++ ·)) = rest := by
        conv => rhs; rw [← List.map_id rest]
        exact List.map_congr_left fun item hitem =>
          (hrest item hitem).2.strip_behind fun d hd => (hpad d hd).1
      rw [hmap, List.filter_eq_self]
      intro item hitem
      rcases List.mem_cons.mp hitem with rfl | hitem
      · simpa using hfirst.2.ne_nil
      · simpa using (hrest item hitem).2.ne_nil

/-- The items of a list, if none has a separator outside of its brackets. -/
theorem splitTop_join (hc : isOrdinary c = true) (hsep : separates c = true)
    (hpad : ∀ d ∈ pad, isBlank d = true ∧ isOrdinary d = true ∧ separates d = false)
    (htop : ∀ d, top d → separates d = false)
    (hitems : ∀ item ∈ items, Balanced ⟨true, angles⟩ top item ∧ Tidy item)
    (hlead : ∀ d ∈ lead, isBlank d = true ∧ isOrdinary d = true ∧ separates d = false) :
    splitTop (lead ++ join (c :: pad) items) separates angles = items :=
  splitTop_uncut hc hsep hpad
    (fun item hitem => ⟨(hitems item hitem).1.uncut htop, (hitems item hitem).2⟩) hlead

end Lists

end Text

end ClassDiagram
