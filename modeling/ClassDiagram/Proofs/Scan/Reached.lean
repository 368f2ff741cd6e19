import ClassDiagram.Proofs.Scan.Plain

/-!
# Places outside of literals

A text is read literal by literal, and a place is reached if no literal runs over it. Reading looks
at most one character past the end of a literal, so what is read up to a place that is reached does
not depend on what follows the character there. This holds for all passes that know literals: they
cut the text at the same literals.

* `Literal.read?_eq_some_iff`: which literal is read, by its marks, its quote and its body.
* `Literal.Opens`, `Literal.splitBody`: how a literal begins, and where it ends.
* `Literal.read?_end`: a literal ends with the text, before a line break or with its quote.
* `pieces_of_reached`: the pieces before a place that is reached.
* `exists_of_closing?`, `closing?_append`: a closed group ends there whatever follows it.
* `stripComments_append`, `mask_append`: what the passes do up to such a place.
* `SameShape`: texts that look the same when they are hidden.
-/

namespace ClassDiagram

namespace Literal

/-! ## Which literal is read -/

/-- Whether marks and a quote open a literal. -/
structure Opens (marks : Text) (quote : Char) : Prop where
  length_marks : marks.length ≤ 2
  marks_marks : ∀ c ∈ marks, isMark c = true
  isQuote : isQuote quote = true
  unmarked_or : marks = [] ∨ quote = '"'

/-- Splits what follows the opening quote behind the end of the literal. -/
def splitBody (marks : Text) (quote : Char) (rest : Text) : Text × Text :=
  if '@' ∈ marks then verbatimBody rest else escapedBody quote rest

theorem not_mark_of_quote {c : Char} (h : isQuote c = true) : isMark c = false := by
  simp only [isQuote, Bool.or_eq_true, beq_iff_eq] at h
  rcases h with (rfl | rfl) | rfl <;> decide

/-- Behind marks and a quote that open a literal, that literal is read. -/
theorem Opens.read? {marks : Text} {quote : Char} (h : Opens marks quote) (rest : Text) :
    Literal.read? (marks ++ quote :: rest) =
      some (⟨marks, quote, (splitBody marks quote rest).1⟩, (splitBody marks quote rest).2) := by
  have hnone : ∀ count, ((quote :: rest).take count).takeWhile isMark = [] := by
    intro count
    cases count with
    | zero => rfl
    | succ count =>
        rw [List.take_succ_cons, List.takeWhile_cons_of_neg (by simp [not_mark_of_quote h.isQuote])]
  have hmarks : ((marks ++ quote :: rest).take 2).takeWhile isMark = marks := by
    rw [List.take_append, List.take_of_length_le h.length_marks,
      List.takeWhile_append_of_pos h.marks_marks, hnone, List.append_nil]
  simp only [Literal.read?, hmarks, List.drop_left, h.isQuote, h.unmarked_or, and_self, if_true]
  rfl

/-- A literal is read where it opens and its body ends where it is split. -/
theorem read?_eq_some_iff {text rest : Text} {value : Literal} :
    read? text = some (value, rest) ↔
      Opens value.marks value.quote ∧ text = value.chars ++ rest ∧
        splitBody value.marks value.quote (value.body ++ rest) = (value.body, rest) := by
  constructor
  · intro h
    have hopens : Opens value.marks value.quote := by
      simp only [read?] at h
      split at h
      · exact absurd h (by simp)
      · split at h
        · rename_i hquote
          cases h
          refine ⟨?_, ?_, hquote.1, hquote.2⟩
          · exact Nat.le_trans (List.takeWhile_sublist _).length_le (List.length_take_le _ _)
          · exact fun c hc => List.all_eq_true.mp List.all_takeWhile c hc
        · exact absurd h (by simp)
    have htext := eq_chars_append_of_read? h
    refine ⟨hopens, htext, ?_⟩
    have hwhole := hopens.read? (value.body ++ rest)
    rw [← List.cons_append, ← List.append_assoc] at hwhole
    obtain ⟨hvalue, hrest⟩ := Prod.mk.inj (Option.some.inj ((htext ▸ h).symm.trans hwhole))
    exact Prod.ext (congrArg body hvalue).symm hrest.symm
  · rintro ⟨hopens, rfl, hsplit⟩
    rw [chars, List.append_assoc, List.cons_append, hopens.read?, hsplit]

/-- Cutting with marks is reading. -/
theorem cut?_true (text : Text) : cut? true text = read? text := by
  cases text with
  | nil => rfl
  | cons c rest => rfl

/-! ## The end of a literal -/

/-- An escaped literal that ends before a character ends there whatever follows that. -/
theorem escapedBody_ends {quote : Char} {text body : Text} {next : Char} {rest : Text}
    (h : escapedBody quote text = (body, next :: rest)) (other : Text) :
    escapedBody quote (body ++ next :: other) = (body, next :: other) := by
  fun_induction escapedBody quote text generalizing body with
  | case1 => exact absurd (Prod.mk.inj h).2 (by simp)
  | case2 c tail ih =>
      obtain ⟨rfl, hrest⟩ := Prod.mk.inj h
      have hlater := ih (Prod.ext rfl hrest)
      rw [List.cons_append, List.cons_append, escapedBody, hlater]
  | case3 tail hescape =>
      obtain ⟨rfl, rfl⟩ := Prod.mk.inj h
      rw [List.singleton_append, escapedBody, if_pos rfl]
      intro d later hquote _
      exact hescape next rest hquote rfl
  | case4 c tail hescape hquote hbreak =>
      obtain ⟨rfl, hnext⟩ := Prod.mk.inj h
      cases hnext
      rw [List.nil_append, escapedBody, if_neg hquote, if_pos hbreak]
      intro d later hc
      exact absurd (hbreak.1.symm.trans hc) (by decide)
  | case5 c tail hescape hquote hbreak ih =>
      obtain ⟨rfl, hrest⟩ := Prod.mk.inj h
      have hlater := ih (Prod.ext rfl hrest)
      rw [List.cons_append, escapedBody, if_neg hquote, if_neg hbreak, hlater]
      -- something stands behind the character, so that it is no backslash
      intro d later hc _
      cases tail with
      | nil => exact absurd hrest (by simp [escapedBody])
      | cons e tail => exact hescape e tail hc rfl

/-- A verbatim literal that ends before a character ends there whatever follows that. -/
theorem verbatimBody_ends {text body : Text} {next : Char} {rest : Text}
    (h : verbatimBody text = (body, next :: rest)) (other : Text) :
    verbatimBody (body ++ next :: other) = (body, next :: other) := by
  fun_induction verbatimBody text generalizing body with
  | case1 => exact absurd (Prod.mk.inj h).2 (by simp)
  | case2 tail ih =>
      obtain ⟨rfl, hrest⟩ := Prod.mk.inj h
      have hlater := ih (Prod.ext rfl hrest)
      rw [List.cons_append, List.cons_append, verbatimBody, hlater]
  | case3 tail hdouble =>
      obtain ⟨rfl, rfl⟩ := Prod.mk.inj h
      rw [List.singleton_append, verbatimBody]
      intro later hnext
      exact hdouble rest (by rw [(List.cons.inj hnext).1])
  | case4 c tail hdouble hquote ih =>
      obtain ⟨rfl, hrest⟩ := Prod.mk.inj h
      have hlater := ih (Prod.ext rfl hrest)
      rw [List.cons_append, verbatimBody, hlater]
      · intro later hc _
        exact hquote hc
      · exact hquote

/-- A verbatim literal ends at the first quote that is not doubled. -/
theorem verbatimBody_append_quote {inner : Text} (h : '"' ∉ inner) {rest : Text}
    (hrest : rest.head? ≠ some '"') :
    verbatimBody (inner ++ '"' :: rest) = (inner ++ ['"'], rest) := by
  induction inner with
  | nil =>
      rw [List.nil_append, verbatimBody]
      · rfl
      · rintro tail rfl
        exact hrest rfl
  | cons c inner ih =>
      have hc : c ≠ '"' := fun heq => h (heq ▸ List.mem_cons_self)
      rw [List.cons_append, verbatimBody, ih fun hmem => h (List.mem_cons_of_mem _ hmem)]
      · rfl
      · exact fun tail heq _ => hc heq
      · exact hc

/-- Without a quote, a verbatim literal takes all. -/
theorem verbatimBody_of_not_mem {inner : Text} (h : '"' ∉ inner) :
    verbatimBody inner = (inner, []) := by
  induction inner with
  | nil => rfl
  | cons c inner ih =>
      have hc : c ≠ '"' := fun heq => h (heq ▸ List.mem_cons_self)
      rw [verbatimBody, ih fun hmem => h (List.mem_cons_of_mem _ hmem)]
      · exact fun tail heq _ => hc heq
      · exact hc

/-- A literal that is read before a character is read before it whatever follows that. -/
theorem read?_ends {text : Text} {value : Literal} {next : Char} {rest : Text}
    (h : read? text = some (value, next :: rest)) (other : Text) :
    read? (value.chars ++ next :: other) = some (value, next :: other) := by
  obtain ⟨hopens, -, hsplit⟩ := read?_eq_some_iff.mp h
  refine read?_eq_some_iff.mpr ⟨hopens, rfl, ?_⟩
  unfold splitBody at hsplit ⊢
  by_cases hverbatim : '@' ∈ value.marks
  · rw [if_pos hverbatim] at hsplit ⊢
    exact verbatimBody_ends hsplit other
  · rw [if_neg hverbatim] at hsplit ⊢
    exact escapedBody_ends hsplit other

/-- An escaped body ends with the text, before a line break or with its quote, and in the last case
it ends there whatever follows. -/
theorem escapedBody_end {quote : Char} (hquote : quote ≠ '\\') {text body rest : Text}
    (h : escapedBody quote text = (body, rest)) :
    rest = [] ∨ (quote ≠ '\x60' ∧ ∃ later, rest = '\n' :: later) ∨
      (body.getLast? = some quote ∧
        ∀ other, escapedBody quote (body ++ other) = (body, other)) := by
  fun_induction escapedBody quote text generalizing body with
  | case1 => exact Or.inl (Prod.mk.inj h).2.symm
  | case2 c tail ih =>
      obtain ⟨rfl, rfl⟩ := Prod.mk.inj h
      rcases ih rfl with hnil | hbreak | ⟨hlast, hother⟩
      · exact Or.inl hnil
      · exact Or.inr (Or.inl hbreak)
      · refine Or.inr (Or.inr ⟨by simp [List.getLast?_cons, hlast], fun other => ?_⟩)
        rw [List.cons_append, List.cons_append, escapedBody, hother]
  | case3 tail hescape =>
      obtain ⟨rfl, rfl⟩ := Prod.mk.inj h
      refine Or.inr (Or.inr ⟨rfl, fun other => ?_⟩)
      rw [List.singleton_append, escapedBody, if_pos rfl]
      exact fun d later heq => absurd heq hquote
  | case4 c tail hescape hne hbreak =>
      obtain ⟨rfl, rfl⟩ := Prod.mk.inj h
      exact Or.inr (Or.inl ⟨hbreak.2, tail, by rw [hbreak.1]⟩)
  | case5 c tail hescape hne hbreak ih =>
      obtain ⟨rfl, rfl⟩ := Prod.mk.inj h
      rcases ih rfl with hnil | hbreak | ⟨hlast, hother⟩
      · exact Or.inl hnil
      · exact Or.inr (Or.inl hbreak)
      · refine Or.inr (Or.inr ⟨by simp [List.getLast?_cons, hlast], fun other => ?_⟩)
        rw [List.cons_append, escapedBody, if_neg hne, if_neg hbreak, hother]
        -- something of the body stands behind the character, so that it is no backslash
        intro d later hc _
        cases tail with
        | nil => exact absurd hlast (by simp [escapedBody])
        | cons e tail => exact hescape e tail hc rfl

/-- A verbatim body ends with the text or with a quote that is not doubled. -/
theorem verbatimBody_end {text body rest : Text} (h : verbatimBody text = (body, rest)) :
    rest.head? ≠ some '"' ∧ (rest = [] ∨ body.getLast? = some '"') := by
  fun_induction verbatimBody text generalizing body with
  | case1 =>
      obtain ⟨rfl, rfl⟩ := Prod.mk.inj h
      exact ⟨by simp, Or.inl rfl⟩
  | case2 tail ih =>
      obtain ⟨rfl, rfl⟩ := Prod.mk.inj h
      obtain ⟨hhead, hend⟩ := ih rfl
      exact ⟨hhead, hend.imp_right fun hlast => by simp [List.getLast?_cons, hlast]⟩
  | case3 tail hdouble =>
      obtain ⟨rfl, rfl⟩ := Prod.mk.inj h
      refine ⟨fun hhead => ?_, Or.inr rfl⟩
      obtain ⟨later, rfl⟩ := List.head?_eq_some_iff.mp hhead
      exact hdouble later rfl
  | case4 c tail hdouble hquote ih =>
      obtain ⟨rfl, rfl⟩ := Prod.mk.inj h
      obtain ⟨hhead, hend⟩ := ih rfl
      exact ⟨hhead, hend.imp_right fun hlast => by simp [List.getLast?_cons, hlast]⟩

theorem ne_backslash_of_quote {c : Char} (h : isQuote c = true) : c ≠ '\\' := by
  rintro rfl
  exact absurd h (by decide)

/-- A literal ends with the text, before a line break or with its quote. -/
theorem read?_end {text rest : Text} {value : Literal} (h : read? text = some (value, rest)) :
    rest = [] ∨ (∃ later, rest = '\n' :: later) ∨ value.body.getLast? = some value.quote := by
  obtain ⟨hopens, -, hsplit⟩ := read?_eq_some_iff.mp h
  unfold splitBody at hsplit
  split at hsplit
  · rename_i hverbatim
    have hquote : value.quote = '"' :=
      hopens.unmarked_or.resolve_left fun hnil => by simp [hnil] at hverbatim
    rw [hquote]
    exact (verbatimBody_end hsplit).2.imp_right Or.inr
  · rcases escapedBody_end (ne_backslash_of_quote hopens.isQuote) hsplit with
      hnil | ⟨-, hbreak⟩ | ⟨hlast, -⟩
    · exact Or.inl hnil
    · exact Or.inr (Or.inl hbreak)
    · exact Or.inr (Or.inr hlast)

/-- Before a character that is no mark, whether a literal is read does not depend on what follows
that character. -/
theorem read?_isSome_of_ends (front : Text) {next : Char} (hnext : isMark next = false)
    {rest : Text} (h : (read? (front ++ next :: rest)).isSome = true) (other : Text) :
    (read? (front ++ next :: other)).isSome = true := by
  obtain ⟨⟨value, tail⟩, hread⟩ := Option.isSome_iff_exists.mp h
  obtain ⟨hopens, htext, -⟩ := read?_eq_some_iff.mp hread
  rw [chars, List.append_assoc, List.cons_append] at htext
  -- the opening quote stands before the character or is the character
  have hquote : ∃ more, front ++ next :: other = value.marks ++ value.quote :: more := by
    rcases List.append_eq_append_iff.mp htext with ⟨middle, hmarks, htail⟩ | ⟨middle, hfront, htail⟩
    · cases middle with
      | nil =>
          cases htail
          exact ⟨other, by rw [hmarks, List.append_nil]⟩
      | cons d middle =>
          cases htail
          have hmem : next ∈ value.marks := by rw [hmarks]; simp
          exact absurd (hopens.marks_marks next hmem) (by simp [hnext])
    · cases middle with
      | nil =>
          cases htail
          exact ⟨other, by rw [hfront, List.append_nil]⟩
      | cons d middle =>
          refine ⟨middle ++ next :: other, ?_⟩
          rw [hfront, (List.cons.inj htail).1, List.append_assoc]
          rfl
  obtain ⟨more, hmore⟩ := hquote
  rw [hmore, hopens.read?]
  rfl

end Literal

namespace Text

/-! ## Pieces -/

section Pieces

variable {marked : Bool} {text rest : Text}

/-- A literal at the start of a text is its first piece. -/
theorem pieces_of_literal {value : Literal} (h : Literal.cut? marked text = some (value, rest)) :
    pieces marked text = .literal value :: pieces marked rest := by
  rw [pieces]
  split
  · rename_i hsome
    cases h.symm.trans hsome
    rfl
  · rename_i hnone
    exact absurd (h.symm.trans hnone) (by simp)

/-- Where no literal starts, the first character is a piece. -/
theorem pieces_of_char {c : Char} (h : Literal.cut? marked (c :: rest) = none) :
    pieces marked (c :: rest) = .char c :: pieces marked rest := by
  rw [pieces]
  split
  · rename_i hsome
    exact absurd (h.symm.trans hsome) (by simp)
  · rfl

/-- The first piece of a text is the literal at its front, or its first character. -/
theorem pieces_cases {piece : Piece} {others : List Piece}
    (h : pieces marked text = piece :: others) :
    (∃ value rest, piece = .literal value ∧ Literal.cut? marked text = some (value, rest) ∧
        pieces marked rest = others) ∨
      ∃ c rest, piece = .char c ∧ text = c :: rest ∧ Literal.cut? marked text = none ∧
        pieces marked rest = others := by
  cases hcut : Literal.cut? marked text with
  | some found =>
      obtain ⟨value, rest⟩ := found
      rw [pieces_of_literal hcut] at h
      obtain ⟨hpiece, hothers⟩ := List.cons.inj h
      exact Or.inl ⟨value, rest, hpiece.symm, rfl, hothers⟩
  | none =>
      cases text with
      | nil => exact absurd h (by simp)
      | cons c rest =>
          rw [pieces_of_char hcut] at h
          obtain ⟨hpiece, hothers⟩ := List.cons.inj h
          exact Or.inr ⟨c, rest, hpiece.symm, rfl, rfl, hothers⟩

end Pieces

/-- Whether a place is reached when a text is read literal by literal: no literal runs over it. -/
def Reached (text : Text) (place : Nat) : Prop :=
  ∃ front back, pieces true text = front ++ back ∧ (front.flatMap Piece.chars).length = place

/-- A place that is reached parts the pieces of a text in those before it and those behind it. -/
theorem Reached.exists_pieces {before rest : Text} (h : Reached (before ++ rest) before.length) :
    ∃ front back, pieces true (before ++ rest) = front ++ back ∧
      front.flatMap Piece.chars = before := by
  obtain ⟨front, back, hpieces, hlength⟩ := h
  refine ⟨front, back, hpieces, ?_⟩
  have hspell := chars_pieces true (before ++ rest)
  rw [hpieces, List.flatMap_append] at hspell
  exact (List.append_inj hspell hlength).1

/-- What is read up to a place that is reached, before a character that is no mark, is read whatever
follows that character. -/
theorem pieces_of_reached {next : Char} (hnext : Literal.isMark next = false)
    {front back : List Piece} {before rest : Text}
    (h : pieces true (before ++ next :: rest) = front ++ back)
    (hspell : front.flatMap Piece.chars = before) (other : Text) :
    pieces true (before ++ next :: other) = front ++ pieces true (next :: other) := by
  induction front generalizing before with
  | nil =>
      subst hspell
      rfl
  | cons piece front ih =>
      rw [List.flatMap_cons] at hspell
      rw [List.cons_append] at h
      subst hspell
      rw [List.append_assoc] at h
      rcases pieces_cases h with
        ⟨value, tail, rfl, hcut, htail⟩ | ⟨c, tail, rfl, htext, hcut, htail⟩
      · have heq : tail = front.flatMap Piece.chars ++ next :: rest :=
          (List.append_cancel_left (Literal.eq_chars_append_of_cut? hcut)).symm
        rw [heq] at htail
        rw [Literal.cut?_true, heq] at hcut
        have hother :
            Literal.cut? true (value.chars ++ (front.flatMap Piece.chars ++ next :: other)) =
              some (value, front.flatMap Piece.chars ++ next :: other) := by
          rw [Literal.cut?_true]
          -- what follows the literal begins alike in both texts
          cases hinner : front.flatMap Piece.chars with
          | nil =>
              rw [hinner] at hcut
              exact Literal.read?_ends hcut other
          | cons d inner =>
              rw [hinner] at hcut
              exact Literal.read?_ends hcut (inner ++ next :: other)
        rw [List.append_assoc, List.cons_append, ← ih htail rfl]
        exact pieces_of_literal hother
      · cases htext
        have hother :
            Literal.cut? true (c :: (front.flatMap Piece.chars ++ next :: other)) = none := by
          rw [Literal.cut?_true, ← Option.not_isSome_iff_eq_none] at hcut ⊢
          exact fun hsome => hcut (Literal.read?_isSome_of_ends (c :: _) hnext hsome rest)
        rw [List.append_assoc, List.cons_append, ← ih htail rfl]
        exact pieces_of_char hother

/-! ## Groups -/

/-- Whether a search over pieces that goes on at `place` finds a bracket of them at `found`, and
does so whatever follows the bracket. -/
def EndsAt (search : List Piece → Option Nat) (closer : Char) (place found : Nat)
    (pieces : List Piece) : Prop :=
  ∃ front back, pieces = front ++ .char closer :: back ∧
    place + (front.flatMap Piece.chars).length = found ∧
    ∀ other, search (front ++ .char closer :: other) = some found

/-- A search that passes over a piece ends where it ends behind it. -/
theorem EndsAt.cons {search later : List Piece → Option Nat} {closer : Char} {place found : Nat}
    {piece : Piece} {rest : List Piece}
    (h : EndsAt later closer (place + piece.chars.length) found rest)
    (hstep : ∀ rest, search (piece :: rest) = later rest) :
    EndsAt search closer place found (piece :: rest) := by
  obtain ⟨front, back, rfl, hplace, hother⟩ := h
  refine ⟨piece :: front, back, rfl, ?_, fun other => ?_⟩
  · rw [List.flatMap_cons, List.length_append, ← Nat.add_assoc]
    exact hplace
  · rw [List.cons_append, hstep, hother]

/-- The search for a closing bracket ends at one, whatever follows. -/
theorem endsAt_of_closingFrom? {opener closer : Char} {depth : Nat} {afterEquals : Bool}
    {place found : Nat} {pieces : List Piece}
    (h : closingFrom? opener closer depth afterEquals place pieces = some found) :
    EndsAt (closingFrom? opener closer depth afterEquals place) closer place found pieces := by
  fun_induction closingFrom? opener closer depth afterEquals place pieces with
  | case1 => exact absurd h (by simp)
  | case2 _ _ _ _ _ ih => exact (ih h).cons fun _ => rfl
  | case3 _ _ _ _ ih =>
      refine EndsAt.cons (ih h) fun _ => ?_
      rw [closingFrom?, if_pos rfl]
  | case4 _ _ _ _ harrow hopener ih =>
      refine EndsAt.cons (ih h) fun _ => ?_
      rw [closingFrom?, if_neg hopener, if_pos rfl, if_pos harrow]
  | case5 _ _ _ rest harrow hdepth hopener =>
      cases h
      refine ⟨[], rest, rfl, rfl, fun _ => ?_⟩
      rw [List.nil_append, closingFrom?, if_neg hopener, if_pos rfl, if_neg harrow, if_pos hdepth]
  | case6 _ _ _ _ harrow hdepth hopener ih =>
      refine EndsAt.cons (ih h) fun _ => ?_
      rw [closingFrom?, if_neg hopener, if_pos rfl, if_neg harrow, if_neg hdepth]
  | case7 _ _ _ _ _ hopener hcloser ih =>
      refine EndsAt.cons (ih h) fun _ => ?_
      rw [closingFrom?, if_neg hopener, if_neg hcloser]

/-- A group that is closed ends there whatever follows its closing bracket. -/
theorem exists_of_closing? {opener : Char} {rest : Text} {close : Nat}
    (h : closing? (opener :: rest) = some close) :
    ∃ closer inner back, closer? opener = some closer ∧ rest = inner ++ closer :: back ∧
      close = inner.length + 1 ∧
      ∀ other, closing? (opener :: (inner ++ closer :: other)) = some close := by
  obtain ⟨closer, hpair, hclose⟩ := Option.bind_eq_some_iff.mp h
  obtain ⟨front, back, hpieces, hplace, hother⟩ := endsAt_of_closingFrom? hclose
  obtain ⟨hoq, hom, -⟩ := opener_facts hpair
  obtain ⟨hcq, hcm, -⟩ := closer_facts hpair
  -- the first piece is the bracket that opens the group, so that the front holds it
  cases front with
  | nil =>
      rw [pieces_cons hoq hom] at hpieces
      have hsame : opener = closer := Piece.char.inj (List.cons.inj hpieces).1
      exact absurd hsame.symm (closer_ne_opener hpair)
  | cons piece front =>
      have hfirst := hpieces
      rw [pieces_cons hoq hom, List.cons_append] at hfirst
      obtain ⟨rfl, hlater⟩ := List.cons.inj hfirst
      have hrest : front.flatMap Piece.chars ++ closer :: back.flatMap Piece.chars = rest := by
        rw [← chars_pieces true rest, hlater, List.flatMap_append]
        rfl
      refine ⟨closer, front.flatMap Piece.chars, _, hpair, hrest.symm, ?_, fun other => ?_⟩
      · rw [← hplace, List.flatMap_cons, List.length_append, Piece.chars, List.length_singleton]
        omega
      · rw [← hrest] at hlater
        have hreached := pieces_of_reached hcm hlater rfl other
        rw [closing?, hpair]
        show closingFrom? opener closer 0 false 0 (pieces true (opener :: _)) = some close
        rw [pieces_cons hoq hom, hreached, pieces_cons hcq hcm]
        exact hother _

/-- What follows a group does not count for where it ends. -/
theorem closing?_append {front rest : Text} {close : Nat}
    (h : closing? (front ++ rest) = some close) (hclose : close < front.length) (other : Text) :
    closing? (front ++ other) = some close := by
  cases front with
  | nil => exact absurd hclose (Nat.not_lt_zero _)
  | cons opener tail =>
      rw [List.cons_append] at h ⊢
      obtain ⟨closer, inner, back, -, hsplit, rfl, hother⟩ := exists_of_closing? h
      have hinner : inner.length < tail.length := by simpa using hclose
      obtain ⟨more, rfl⟩ : ∃ more, tail = inner ++ closer :: more := by
        rcases List.append_eq_append_iff.mp hsplit with ⟨middle, rfl, -⟩ | ⟨middle, rfl, hback⟩
        · rw [List.length_append] at hinner
          omega
        · cases middle with
          | nil => exact absurd hinner (by simp)
          | cons c middle =>
              obtain ⟨rfl, -⟩ := List.cons.inj hback
              exact ⟨middle, rfl⟩
      rw [List.append_assoc]
      exact hother (more ++ other)

/-! ## Comments -/

/-- Whether no comment sign stands anywhere in a text, in a literal or not. -/
def CommentFree (text : Text) : Prop := ¬ ['/', '/'] <:+: text ∧ ¬ ['/', '*'] <:+: text

instance (text : Text) : Decidable (CommentFree text) :=
  inferInstanceAs (Decidable (_ ∧ _))

/-- How a text without comments ends is without comments. -/
theorem CommentFree.of_suffix {text part : Text} (h : CommentFree text) (hpart : part <:+ text) :
    CommentFree part :=
  ⟨fun hline => h.1 (hline.trans hpart.isInfix), fun hblock => h.2 (hblock.trans hpart.isInfix)⟩

/-- Plain characters begin no comment. -/
theorem commentFree_of_plain {text : Text} (h : ∀ c ∈ text, isPlain c = true) :
    CommentFree text := by
  have hslash : '/' ∉ text := fun hmem => ne_slash_of_plain (h '/' hmem) rfl
  exact ⟨fun hline => hslash (hline.subset List.mem_cons_self),
    fun hblock => hslash (hblock.subset List.mem_cons_self)⟩

/-- Comments are not looked for in a literal. -/
theorem stripComments_of_literal {text rest : Text} {value : Literal}
    (h : Literal.cut? true text = some (value, rest)) :
    stripComments text = value.chars ++ stripComments rest := by
  rw [stripComments.eq_def]
  split
  · rename_i hsome _
    cases h.symm.trans hsome
    rfl
  · rename_i hnone
    rw [Option.attach_eq_none_iff] at hnone
    exact absurd (h.symm.trans hnone) (by simp)

/-- A character that begins no comment stays. -/
theorem stripComments_of_char {c : Char} {rest : Text}
    (h : Literal.cut? true (c :: rest) = none)
    (hcomment : c = '/' → ∀ d ∈ rest.head?, d ≠ '/' ∧ d ≠ '*') :
    stripComments (c :: rest) = c :: stripComments rest := by
  rw [stripComments]
  split
  · rename_i hsome _
    exact absurd (h.symm.trans hsome) (by simp)
  · rfl
  · rintro tail hc rfl
    exact absurd rfl (hcomment hc '/' rfl).1
  · rintro tail hc rfl
    exact absurd rfl (hcomment hc '*' rfl).2

/-- Up to a place that is reached, a text without comment signs keeps all of its characters. -/
theorem stripComments_append {front : List Piece} {before rest : Text}
    (h : pieces true (before ++ rest) = front ++ pieces true rest)
    (hspell : front.flatMap Piece.chars = before) (hfree : CommentFree before)
    (hrest : ∀ c ∈ rest.head?, c ≠ '/' ∧ c ≠ '*') :
    stripComments (before ++ rest) = before ++ stripComments rest := by
  induction front generalizing before with
  | nil =>
      subst hspell
      rfl
  | cons piece front ih =>
      rw [List.flatMap_cons] at hspell
      rw [List.cons_append] at h
      subst hspell
      have hlater := hfree.of_suffix (List.suffix_append _ _)
      rw [List.append_assoc] at h ⊢
      rcases pieces_cases h with
        ⟨value, tail, rfl, hcut, htail⟩ | ⟨c, tail, rfl, htext, hcut, htail⟩
      · have heq : tail = front.flatMap Piece.chars ++ rest :=
          (List.append_cancel_left (Literal.eq_chars_append_of_cut? hcut)).symm
        rw [heq] at htail hcut
        rw [List.append_assoc, ← ih htail rfl hlater]
        exact stripComments_of_literal hcut
      · cases htext
        rw [List.append_assoc, ← ih htail rfl hlater]
        refine stripComments_of_char hcut ?_
        rintro rfl d hd
        -- the character behind a slash stands in the text or is the first one behind it
        cases hinner : front.flatMap Piece.chars with
        | nil =>
            rw [hinner] at hd
            exact hrest d hd
        | cons e inner =>
            rw [hinner] at hd hfree
            cases hd
            constructor
            · rintro rfl
              exact hfree.1 (List.prefix_append ['/', '/'] inner).isInfix
            · rintro rfl
              exact hfree.2 (List.prefix_append ['/', '*'] inner).isInfix

/-- A text without comment signs keeps all of its characters. -/
theorem stripComments_of_free {text : Text} (h : CommentFree text) : stripComments text = text := by
  have hpieces : pieces true (text ++ []) = pieces true text ++ pieces true [] := by
    rw [pieces_nil, List.append_nil, List.append_nil]
  have hall := stripComments_append hpieces (chars_pieces true text) h (by simp)
  have hnil : stripComments [] = [] := by
    rw [stripComments]
    rfl
  rwa [List.append_nil, hnil, List.append_nil] at hall

/-! ## Masks -/

/-- Masking goes from left to right, a piece at a time. -/
theorem mask_append {front : List Piece} {before rest : Text}
    (h : pieces true (before ++ rest) = front ++ pieces true rest) :
    mask (before ++ rest) = front.flatMap Piece.mask ++ mask rest := by
  unfold mask
  rw [h, List.flatMap_append]

/-- A closed literal is masked between its quotes. -/
theorem maskLiteral_closed (marks : Text) (quote : Char) (inner : Text) :
    Piece.maskLiteral ⟨marks, quote, inner ++ [quote]⟩ =
      marks ++ quote :: (hide inner ++ [quote]) := by
  simp [Piece.maskLiteral]

/-- A literal that does not end with its quote is masked to its end. -/
theorem maskLiteral_open (marks : Text) {quote : Char} {inner : Text}
    (h : inner.getLast? ≠ some quote) :
    Piece.maskLiteral ⟨marks, quote, inner⟩ = marks ++ quote :: hide inner := by
  unfold Piece.maskLiteral
  split
  · rename_i last hlast
    have hne : last ≠ quote := by
      rintro rfl
      exact h hlast
    rw [if_neg hne]
  · rename_i hlast
    have hempty : inner = [] := List.getLast?_eq_none_iff.mp hlast
    rw [hempty]
    rfl

/-- Whether two texts have the same length and line breaks at the same places. -/
def SameShape (text other : Text) : Prop :=
  text.length = other.length ∧ ∀ place : Nat, text[place]? = some '\n' ↔ other[place]? = some '\n'

theorem sameShape_of_unbroken {text other : Text} (hlength : text.length = other.length)
    (htext : '\n' ∉ text) (hother : '\n' ∉ other) : SameShape text other :=
  ⟨hlength, fun _ => ⟨fun h => absurd (List.mem_of_getElem? h) htext,
    fun h => absurd (List.mem_of_getElem? h) hother⟩⟩

/-- Texts of the same shape look the same when they are hidden. -/
theorem SameShape.hide_eq {text other : Text} (h : SameShape text other) :
    hide text = hide other := by
  refine List.ext_getElem? fun place => ?_
  have hbreak := h.2 place
  have hlength := h.1
  simp only [hide, List.getElem?_map]
  by_cases hplace : place < text.length
  · have hplace' : place < other.length := hlength ▸ hplace
    rw [List.getElem?_eq_getElem hplace, List.getElem?_eq_getElem hplace'] at hbreak ⊢
    simp only [Option.some.injEq] at hbreak
    simp only [Option.map_some, hideChar, hbreak]
  · rw [List.getElem?_eq_none (Nat.le_of_not_lt hplace),
      List.getElem?_eq_none (hlength ▸ Nat.le_of_not_lt hplace)]

/-- Hiding keeps the line breaks where they are. -/
theorem getElem?_hide_eq_break {text : Text} {place : Nat} :
    (hide text)[place]? = some '\n' ↔ text[place]? = some '\n' := by
  rw [hide, List.getElem?_map, Option.map_eq_some_iff]
  constructor
  · rintro ⟨c, hc, hhide⟩
    have hbreak : c = '\n' := by
      by_contra hne
      exact absurd hhide (by simp [hideChar, hne])
    rw [hc, hbreak]
  · exact fun h => ⟨'\n', h, rfl⟩

/-- Texts of the same shape are hidden as the same text. -/
theorem sameShape_iff {text other : Text} : SameShape text other ↔ hide text = hide other := by
  refine ⟨SameShape.hide_eq, fun h => ⟨?_, fun place => ?_⟩⟩
  · rw [← length_hide text, h, length_hide]
  · rw [← getElem?_hide_eq_break, h, getElem?_hide_eq_break]

instance (text other : Text) : Decidable (SameShape text other) :=
  decidable_of_iff _ sameShape_iff.symm

end Text

end ClassDiagram
