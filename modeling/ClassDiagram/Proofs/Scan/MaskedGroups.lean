import ClassDiagram.Proofs.Scan.Masked
import ClassDiagram.Proofs.Scan.Matching

/-!
# Groups in a mask

A mask is read again for its groups. Its literals then end where those of the text do, with one
exception. A literal of one line can be continued over a line break by a backslash. Its mask keeps
the line break and not the backslash, so that the literal ends there, and the closing quote on a
later line opens a literal of its own. This does no harm if nothing else stands on that line.

* `read?_mask_eq_none`: no literal begins in a mask where none does in the text.
* `Literal.Continued`, `read?_mask_of_whole`: any other literal is read again to its end.
* `pieces_mask_of_continued`: the pieces of the mask of a continued literal.
* `TornAt`: whether a continued literal has something behind it.
* `closingAt?_mask`: groups end in a mask where they do in the text if no literal in them is torn,
  and every torn literal spoils the group around it.
-/

namespace ClassDiagram

namespace Literal

/-- Whether a literal of one line goes on behind a line break. -/
def Continued (value : Literal) : Prop :=
  '@' ∉ value.marks ∧ value.quote ≠ '\x60' ∧ '\n' ∈ value.body

instance (value : Literal) : Decidable value.Continued := inferInstanceAs (Decidable (_ ∧ _ ∧ _))

theorem ne_break_of_quote {c : Char} (h : isQuote c = true) : c ≠ '\n' := by
  rintro rfl
  exact absurd h (by decide)

/-- A character that neither escapes nor ends a literal is part of its body. -/
theorem escapedBody_cons {quote c : Char} (hescape : c ≠ '\\') (hquote : c ≠ quote)
    (hbreak : c = '\n' → quote = '\x60') (rest : Text) :
    escapedBody quote (c :: rest) =
      (c :: (escapedBody quote rest).1, (escapedBody quote rest).2) := by
  rw [escapedBody, if_neg hquote, if_neg fun h => h.2 (hbreak h.1)]
  exact fun d later hc => absurd hc hescape

/-- The quote ends the body and is part of it. -/
theorem escapedBody_quote {quote : Char} (h : isQuote quote = true) (rest : Text) :
    escapedBody quote (quote :: rest) = ([quote], rest) := by
  rw [escapedBody, if_pos rfl]
  exact fun d later hc => absurd hc (ne_backslash_of_quote h)

/-- A line break ends the body of a literal that stays on its line. -/
theorem escapedBody_break {quote : Char} (h : isQuote quote = true) (hline : quote ≠ '\x60')
    (rest : Text) : escapedBody quote ('\n' :: rest) = ([], '\n' :: rest) := by
  rw [escapedBody, if_neg (ne_break_of_quote h).symm, if_pos ⟨rfl, hline⟩]
  exact fun d later hc => absurd hc (by decide)

/-- Blanks are passed over, up to a line break in a literal of one line. -/
theorem escapedBody_hide {quote : Char} (h : isQuote quote = true) {inner : Text}
    (hbreak : quote = '\x60' ∨ '\n' ∉ inner) (rest : Text) :
    escapedBody quote (Text.hide inner ++ rest) =
      (Text.hide inner ++ (escapedBody quote rest).1, (escapedBody quote rest).2) := by
  induction inner with
  | nil => rfl
  | cons c inner ih =>
      have hlater := ih (hbreak.imp_right fun hmem hin => hmem (List.mem_cons_of_mem _ hin))
      rw [Text.hide_cons, List.cons_append, escapedBody_cons, hlater]
      · rfl
      · unfold Text.hideChar
        split <;> decide
      · unfold Text.hideChar
        split
        · exact (ne_break_of_quote h).symm
        · rintro rfl
          exact absurd h (by decide)
      · intro hc
        refine hbreak.resolve_right fun hmem => hmem ?_
        have hin : c = '\n' := by
          by_contra hne
          exact absurd hc (by simp [Text.hideChar, hne])
        rw [hin]
        exact List.mem_cons_self

/-- The marks and the quote with which a text begins. -/
theorem opening_unique {marks others : Text} {quote other : Char} {rest tail : Text}
    (hmarks : ∀ c ∈ marks, isMark c = true) (hothers : ∀ c ∈ others, isMark c = true)
    (hquote : isQuote quote = true) (hother : isQuote other = true)
    (h : marks ++ quote :: rest = others ++ other :: tail) : marks = others ∧ quote = other := by
  have htake := congrArg (List.takeWhile isMark) h
  rw [List.takeWhile_append_of_pos hmarks, List.takeWhile_append_of_pos hothers,
    List.takeWhile_cons_of_neg (by simp [not_mark_of_quote hquote]),
    List.takeWhile_cons_of_neg (by simp [not_mark_of_quote hother]), List.append_nil,
    List.append_nil] at htake
  subst htake
  exact ⟨rfl, (List.cons.inj (List.append_cancel_left h)).1⟩

end Literal

namespace Text

variable {text rest : Text} {value : Literal} {place start : Nat}

/-! ## Where literals begin in a mask -/

theorem mask_nil : mask [] = [] := by
  rw [mask, pieces_nil]
  rfl

/-- A line break outside of literals stays. -/
theorem mask_break (rest : Text) : mask ('\n' :: rest) = '\n' :: mask rest := by
  refine mask_of_char ?_
  rw [← Literal.cut?_true]
  exact cut?_of_other (by decide) (by decide) true rest

/-- The marks and the quote with which a mask begins are those with which its text does. -/
theorem exists_of_mask_eq {marks : Text} {quote : Char}
    (hmarks : ∀ c ∈ marks, Literal.isMark c = true) (hquote : Literal.isQuote quote = true)
    (h : mask text = marks ++ quote :: rest) : ∃ other, text = marks ++ quote :: other := by
  induction text generalizing marks with
  | nil =>
      rw [mask_nil] at h
      exact absurd h (by simp)
  | cons c tail ih =>
      cases hread : Literal.read? (c :: tail) with
      | some found =>
          obtain ⟨value, behind⟩ := found
          obtain ⟨hopens, htext, -⟩ := Literal.read?_eq_some_iff.mp hread
          obtain ⟨masked, hmask⟩ : ∃ masked,
              Piece.maskLiteral value = value.marks ++ value.quote :: masked := by
            rcases maskLiteral_cases value with ⟨inner, -, hmask⟩ | ⟨-, hmask⟩
            · exact ⟨_, hmask⟩
            · exact ⟨_, hmask⟩
          rw [mask_of_literal hread, hmask, List.append_assoc, List.cons_append] at h
          obtain ⟨rfl, rfl⟩ :=
            Literal.opening_unique hmarks hopens.marks_marks hquote hopens.isQuote h.symm
          exact ⟨value.body ++ behind, by rw [htext, Literal.chars, List.append_assoc]; rfl⟩
      -- a mark outside of a literal stays as it is, and the quote follows further on
      | none =>
          rw [mask_of_char hread] at h
          cases marks with
          | nil => exact ⟨tail, by rw [(List.cons.inj h).1]; rfl⟩
          | cons mark marks =>
              obtain ⟨rfl, hlater⟩ := List.cons.inj h
              obtain ⟨other, rfl⟩ := ih (fun d hd => hmarks d (List.mem_cons_of_mem _ hd)) hlater
              exact ⟨other, rfl⟩

/-- No literal begins in a mask where none begins in the text. -/
theorem read?_mask_eq_none (h : Literal.read? text = none) : Literal.read? (mask text) = none := by
  refine Option.eq_none_iff_forall_ne_some.mpr fun found hread => ?_
  obtain ⟨value, tail⟩ := found
  obtain ⟨hopens, htext, -⟩ := Literal.read?_eq_some_iff.mp hread
  rw [Literal.chars, List.append_assoc] at htext
  obtain ⟨other, rfl⟩ := exists_of_mask_eq hopens.marks_marks hopens.isQuote htext
  exact absurd (h.symm.trans (hopens.read? other)) (by simp)

/-- Masking keeps the first character. -/
theorem head?_mask (text : Text) : (mask text).head? = text.head? := by
  cases hread : Literal.read? text with
  | some found =>
      obtain ⟨value, rest⟩ := found
      have hfront : (Piece.maskLiteral value)[0]? = value.chars[0]? := by
        rw [getElem?_maskLiteral value.length_chars_pos, if_pos (Or.inl (Nat.zero_le _))]
      have hmask : 0 < (Piece.maskLiteral value).length := by
        rw [Piece.length_maskLiteral]
        exact value.length_chars_pos
      rw [mask_of_literal hread, Literal.eq_chars_append_of_read? hread, List.head?_eq_getElem?,
        List.head?_eq_getElem?, List.getElem?_append_left hmask,
        List.getElem?_append_left value.length_chars_pos, hfront]
  | none =>
      cases text with
      | nil => rw [mask_nil]
      | cons c rest => rw [mask_of_char hread]; rfl

/-! ## Where literals end in a mask -/

/-- What is hidden is blank, up to its line breaks. -/
theorem mem_hide {c : Char} (h : c ∈ hide text) : c = ' ' ∨ c = '\n' := by
  obtain ⟨d, -, rfl⟩ := List.mem_map.mp h
  by_cases hbreak : d = '\n' <;> simp [hideChar, hbreak]

/-- A verbatim body ends in the mask where it does in the text. -/
theorem verbatimBody_mask (hquote : value.quote = '"')
    (h : Literal.verbatimBody (value.body ++ rest) = (value.body, rest)) :
    ∃ body, Piece.maskLiteral value = value.marks ++ value.quote :: body ∧
      Literal.verbatimBody (body ++ mask rest) = (body, mask rest) := by
  have hblank : ∀ inner : Text, '"' ∉ hide inner := fun inner hmem => by
    simpa using mem_hide hmem
  obtain ⟨hhead, hend⟩ := Literal.verbatimBody_end h
  rcases maskLiteral_cases value with ⟨inner, -, hmask⟩ | ⟨hlast, hmask⟩
  · refine ⟨_, hmask, ?_⟩
    rw [hquote, List.append_assoc, List.singleton_append]
    exact Literal.verbatimBody_append_quote (hblank inner) (by rwa [head?_mask])
  · refine ⟨_, hmask, ?_⟩
    rw [hend.resolve_right (hquote ▸ hlast), mask_nil, List.append_nil]
    exact Literal.verbatimBody_of_not_mem (hblank value.body)

/-- Without a line break in a literal of one line, an escaped body does so as well. -/
theorem escapedBody_mask (hquote : Literal.isQuote value.quote = true)
    (hline : value.quote = '\x60' ∨ '\n' ∉ value.body)
    (h : Literal.escapedBody value.quote (value.body ++ rest) = (value.body, rest)) :
    ∃ body, Piece.maskLiteral value = value.marks ++ value.quote :: body ∧
      Literal.escapedBody value.quote (body ++ mask rest) = (body, mask rest) := by
  rcases maskLiteral_cases value with ⟨inner, hbody, hmask⟩ | ⟨hlast, hmask⟩
  · refine ⟨_, hmask, ?_⟩
    have hinner : value.quote = '\x60' ∨ '\n' ∉ inner :=
      hline.imp_right fun hno hmem => hno (by rw [hbody]; exact List.mem_append_left _ hmem)
    rw [List.append_assoc, Literal.escapedBody_hide hquote hinner, List.singleton_append,
      Literal.escapedBody_quote hquote]
  · refine ⟨_, hmask, ?_⟩
    rw [Literal.escapedBody_hide hquote hline]
    rcases Literal.escapedBody_end (Literal.ne_backslash_of_quote hquote) h with
      rfl | ⟨hbreak, later, rfl⟩ | ⟨hclosed, -⟩
    · rw [mask_nil, Literal.escapedBody, List.append_nil]
    · rw [mask_break, Literal.escapedBody_break hquote hbreak, List.append_nil]
    · exact absurd hclosed hlast

/-- A literal that is not continued over a line break is read to its end in the mask. -/
theorem read?_mask_of_whole (h : Literal.read? text = some (value, rest))
    (hwhole : ¬ value.Continued) :
    ∃ masked : Literal, masked.chars = Piece.maskLiteral value ∧
      Literal.read? (mask text) = some (masked, mask rest) := by
  obtain ⟨hopens, -, hsplit⟩ := Literal.read?_eq_some_iff.mp h
  obtain ⟨body, hmask, hbody⟩ : ∃ body,
      Piece.maskLiteral value = value.marks ++ value.quote :: body ∧
        Literal.splitBody value.marks value.quote (body ++ mask rest) = (body, mask rest) := by
    unfold Literal.splitBody at hsplit ⊢
    by_cases hverbatim : '@' ∈ value.marks
    · simp only [if_pos hverbatim] at hsplit ⊢
      refine verbatimBody_mask (hopens.unmarked_or.resolve_left ?_) hsplit
      rintro hnil
      rw [hnil] at hverbatim
      exact absurd hverbatim (by simp)
    · simp only [if_neg hverbatim] at hsplit ⊢
      refine escapedBody_mask hopens.isQuote ?_ hsplit
      by_contra hno
      rw [not_or, not_not] at hno
      exact hwhole ⟨hverbatim, hno⟩
  refine ⟨⟨value.marks, value.quote, body⟩, hmask.symm, ?_⟩
  rw [mask_of_literal h, hmask]
  exact Literal.read?_eq_some_iff.mpr ⟨hopens, rfl, hbody⟩

/-- The mask of a continued literal up to its first line break, and what is kept at its end. -/
theorem exists_maskLiteral_of_break (hquote : Literal.isQuote value.quote = true)
    (h : '\n' ∈ value.body) :
    ∃ before behind kept : Text, '\n' ∉ before ∧
      Piece.maskLiteral value =
        value.marks ++ value.quote :: (hide before ++ '\n' :: (hide behind ++ kept)) ∧
      (value.body.getLast? = some value.quote ∧ kept = [value.quote] ∨
        value.body.getLast? ≠ some value.quote ∧ kept = []) := by
  obtain ⟨before, behind, hbody, hbefore⟩ := List.eq_append_cons_of_mem h
  rcases maskLiteral_cases value with ⟨inner, hinner, hmask⟩ | ⟨hlast, hmask⟩
  -- the quote at the end is no line break, so that it stands behind the first one
  · have hlast : value.body.getLast? = some value.quote := by rw [hinner, List.getLast?_concat]
    have hbehind : behind.getLast? = some value.quote := by
      rw [hbody, List.getLast?_append, List.getLast?_cons] at hlast
      cases hend : behind.getLast? with
      | none =>
          rw [hend] at hlast
          exact absurd (Option.some.inj hlast).symm (Literal.ne_break_of_quote hquote)
      | some last =>
          rw [hend] at hlast
          exact hlast
    obtain ⟨later, rfl⟩ := List.getLast?_eq_some_iff.mp hbehind
    have hsame : inner ++ [value.quote] = (before ++ '\n' :: later) ++ [value.quote] := by
      rw [← hinner, hbody, List.append_assoc]
      rfl
    obtain rfl := List.append_cancel_right hsame
    refine ⟨before, later, [value.quote], hbefore, ?_, Or.inl ⟨hlast, rfl⟩⟩
    rw [hmask, hide_append, hide_cons, List.append_assoc]
    rfl
  · refine ⟨before, behind, [], hbefore, ?_, Or.inr ⟨hlast, rfl⟩⟩
    rw [hmask, hbody, hide_append, hide_cons, List.append_nil]
    rfl

/-- A continued literal ends in the mask before its first line break. Behind that are blanks and, if
the literal ends with its quote, that quote. -/
theorem pieces_mask_of_continued (h : Literal.read? text = some (value, rest))
    (hcontinued : value.Continued) :
    ∃ (first : Literal) (blanks kept : Text),
      Piece.maskLiteral value = first.chars ++ (blanks ++ kept) ∧
      (∀ c ∈ blanks, c = ' ' ∨ c = '\n') ∧
      (value.body.getLast? = some value.quote ∧ kept = [value.quote] ∨
        value.body.getLast? ≠ some value.quote ∧ kept = []) ∧
      pieces true (mask text) =
        .literal first :: (blanks.map Piece.char ++ pieces true (kept ++ mask rest)) := by
  obtain ⟨hverbatim, hline, hbreak⟩ := hcontinued
  obtain ⟨hopens, -, -⟩ := Literal.read?_eq_some_iff.mp h
  obtain ⟨before, behind, kept, hbefore, hmask, hkept⟩ :=
    exists_maskLiteral_of_break hopens.isQuote hbreak
  have hblanks : ∀ c ∈ '\n' :: hide behind, c = ' ' ∨ c = '\n' := by
    intro c hc
    rcases List.mem_cons.mp hc with rfl | hc
    · exact Or.inr rfl
    · exact mem_hide hc
  refine ⟨⟨value.marks, value.quote, hide before⟩, '\n' :: hide behind, kept, ?_, hblanks, hkept,
    ?_⟩
  · rw [hmask, Literal.chars, List.append_assoc]
    rfl
  · have hread : Literal.read? (mask text) =
        some (⟨value.marks, value.quote, hide before⟩,
          '\n' :: hide behind ++ (kept ++ mask rest)) := by
      refine Literal.read?_eq_some_iff.mpr ⟨hopens, ?_, ?_⟩
      · simp [mask_of_literal h, hmask, Literal.chars]
      · rw [Literal.splitBody, if_neg hverbatim, Literal.escapedBody_hide hopens.isQuote
          (Or.inr hbefore), List.cons_append, Literal.escapedBody_break hopens.isQuote hline,
          List.append_nil]
    rw [pieces_of_literal ((Literal.cut?_true _).trans hread), pieces_plain_append]
    intro c hc
    rcases hblanks c hc with rfl | rfl <;> decide

/-! ## Groups -/

/-- Whether a literal that is continued over a line break has something behind it on its last
line. -/
def TornAt (text : Text) (start : Nat) (value : Literal) : Prop :=
  value.Continued ∧ ∃ c, text[start + value.chars.length]? = some c ∧ c ≠ '\n'

/-- Behind a continued literal that is not torn stands nothing or a line break. -/
theorem drop_of_not_tornAt (h : ¬ TornAt text start value) (hcontinued : value.Continued) :
    text.drop (start + value.chars.length) = [] ∨
      ∃ later, text.drop (start + value.chars.length) = '\n' :: later := by
  cases hdrop : text.drop (start + value.chars.length) with
  | nil => exact Or.inl rfl
  | cons c later =>
      have hc : text[start + value.chars.length]? = some c := by
        rw [← List.head?_drop, hdrop]
        rfl
      have hbreak : c = '\n' := by
        by_contra hne
        exact h ⟨hcontinued, c, hc, hne⟩
      exact Or.inr ⟨later, by rw [hbreak]⟩

/-- Whether no literal is torn from a place on, up to a closing bracket if one is found. -/
def Untorn (text : Text) (place : Nat) (found : Option Nat) : Prop :=
  ∀ start value, HasLiteral text start value → place ≤ start → (∀ close ∈ found, start < close) →
    ¬ TornAt text start value

/-- Where nothing is torn from a place on, nothing is torn from a later one on. -/
theorem Untorn.mono {found : Option Nat} {later : Nat} (h : Untorn text place found)
    (hle : place ≤ later) : Untorn text later found :=
  fun start value hliteral hstart => h start value hliteral (Nat.le_trans hle hstart)

/-- There are no brackets among blanks. -/
theorem level_blanks {blanks : Text} (h : ∀ c ∈ blanks, c = ' ' ∨ c = '\n') :
    Level Brackets.all (fun _ => True) (blanks.map Piece.char) := by
  refine Balanced.level_chars (Balanced.of_ordinary fun c hc => ⟨?_, trivial⟩)
  rcases h c hc with rfl | rfl <;> decide

/-- What a literal that is not torn leaves in a mask is level. -/
theorem pieces_mask_of_untorn (h : Literal.read? text = some (value, rest))
    (huntorn : value.Continued → rest = [] ∨ ∃ later, rest = '\n' :: later) :
    ∃ (first : Literal) (others : List Piece),
      first.chars ++ others.flatMap Piece.chars = Piece.maskLiteral value ∧
      Level Brackets.all (fun _ => True) others ∧
      pieces true (mask text) = .literal first :: (others ++ pieces true (mask rest)) := by
  by_cases hcontinued : value.Continued
  · obtain ⟨hopens, -, -⟩ := Literal.read?_eq_some_iff.mp h
    obtain ⟨first, blanks, kept, hmask, hblanks, hkept, hpieces⟩ :=
      pieces_mask_of_continued h hcontinued
    rcases hkept with ⟨-, rfl⟩ | ⟨-, rfl⟩
    -- the quote that is kept opens a literal, which ends at once
    · have hempty : Literal.escapedBody value.quote (mask rest) = ([], mask rest) := by
        rcases huntorn hcontinued with rfl | ⟨later, rfl⟩
        · rw [mask_nil, Literal.escapedBody]
        · rw [mask_break, Literal.escapedBody_break hopens.isQuote hcontinued.2.1]
      have hread : Literal.read? (value.quote :: mask rest) =
          some (⟨[], value.quote, []⟩, mask rest) := by
        rw [read?_of_unmarked (Literal.not_mark_of_quote hopens.isQuote), if_pos hopens.isQuote,
          hempty]
      refine ⟨first, blanks.map Piece.char ++ [.literal ⟨[], value.quote, []⟩], ?_,
        (level_blanks hblanks).append (.literal .nil), ?_⟩
      · rw [hmask, List.flatMap_append, flatMap_chars_map]
        rfl
      · rw [hpieces, List.singleton_append,
          pieces_of_literal ((Literal.cut?_true _).trans hread), List.append_assoc]
        rfl
    · refine ⟨first, blanks.map Piece.char, ?_, level_blanks hblanks, hpieces⟩
      rw [hmask, List.append_nil, flatMap_chars_map]
  · obtain ⟨masked, hmask, hread⟩ := read?_mask_of_whole h hcontinued
    exact ⟨masked, [], by rw [← hmask]; exact List.append_nil _, .nil,
      pieces_of_literal ((Literal.cut?_true _).trans hread)⟩

section Search

variable {opener closer : Char} {depth : Nat}

theorem le_of_closingFrom? {behind : Bool} {found : Nat} {pieces : List Piece}
    (h : closingFrom? opener closer depth behind place pieces = some found) : place ≤ found := by
  obtain ⟨front, -, -, hplace, -⟩ := endsAt_of_closingFrom? h
  omega

/-- At a character a search ends or goes on behind it, whatever follows. -/
theorem closingFrom?_char_cases (opener closer : Char) (hdepth : 1 ≤ depth) (behind : Bool)
    (place : Nat) (c : Char) :
    (∀ rest, closingFrom? opener closer depth behind place (.char c :: rest) = some place) ∨
      ∃ (deeper : Nat) (flag : Bool), 1 ≤ deeper ∧
        ∀ rest, closingFrom? opener closer depth behind place (.char c :: rest) =
          closingFrom? opener closer deeper flag (place + 1) rest := by
  simp only [closingFrom?]
  split
  · exact Or.inr ⟨depth + 1, false, Nat.le_add_left 1 depth, fun _ => rfl⟩
  · split
    · split
      · exact Or.inr ⟨depth, false, hdepth, fun _ => rfl⟩
      · split
        · exact Or.inl fun _ => rfl
        · exact Or.inr ⟨depth - 1, false, by omega, fun _ => rfl⟩
    · exact Or.inr ⟨depth, c == '=', hdepth, fun _ => rfl⟩

/-- A search finds in a mask what it finds in the text, if it comes over no torn literal. -/
theorem closingFrom?_mask (hpair : closer? opener = some closer) (hdepth : 1 ≤ depth)
    (behind : Bool) (hvisited : Visited text place)
    (huntorn : Untorn text place
      (closingFrom? opener closer depth behind place (pieces true (text.drop place)))) :
    closingFrom? opener closer depth behind place (pieces true (mask (text.drop place))) =
      closingFrom? opener closer depth behind place (pieces true (text.drop place)) := by
  induction hroom : text.length - place using Nat.strongRecOn
    generalizing place depth behind with
  | ind room ih =>
      cases hread : Literal.read? (text.drop place) with
      | some found =>
          obtain ⟨value, rest⟩ := found
          have hpos := value.length_chars_pos
          have hliteral : HasLiteral text place value := ⟨hvisited, rest, hread⟩
          have hstep := ScanStep.literal hliteral.endAt?
          obtain rfl : text.drop (place + value.chars.length) = rest := Literal.drop_of_read? hread
          rw [pieces_of_literal ((Literal.cut?_true _).trans hread), closingFrom?] at huntorn ⊢
          -- the literal stands before the closing bracket, so it is one of those that are not torn
          have hwhole : ¬ TornAt text place value :=
            huntorn place value hliteral (Nat.le_refl _) fun close hclose => by
              have := le_of_closingFrom? hclose
              omega
          obtain ⟨first, others, hspell, hlevel, hpieces⟩ :=
            pieces_mask_of_untorn hread (drop_of_not_tornAt hwhole)
          have hlength : first.chars.length + (others.flatMap Piece.chars).length =
              value.chars.length := by
            rw [← List.length_append, hspell, Piece.length_maskLiteral]
          rw [hpieces, closingFrom?, closingFrom?_level hlevel hpair hdepth, Nat.add_assoc, hlength]
          have := hstep.lt
          exact ih (text.length - (place + value.chars.length)) (by omega) hdepth false
            (hvisited.step hstep) (huntorn.mono (Nat.le_add_right _ _)) rfl
      | none =>
          cases hdrop : text.drop place with
          | nil => rw [mask_nil]
          | cons c later =>
              have hlater : text.drop (place + 1) = later := by
                rw [← List.drop_drop, hdrop]
                rfl
              have hplace : place < text.length := by
                have := congrArg List.length hdrop
                rw [List.length_drop, List.length_cons] at this
                omega
              have hstep := ScanStep.char hplace (Literal.endAt?_eq_none_iff.mpr hread)
              rw [hdrop] at hread huntorn
              have hnone := read?_mask_eq_none hread
              rw [mask_of_char hread] at hnone ⊢
              rw [pieces_of_char ((Literal.cut?_true _).trans hread)] at huntorn ⊢
              rw [pieces_of_char ((Literal.cut?_true _).trans hnone)]
              -- the character is the same in both texts, so both searches end here or go on alike
              rcases closingFrom?_char_cases opener closer hdepth behind place c with
                hends | ⟨deeper, flag, hdeeper, hgoes⟩
              · rw [hends, hends]
              · rw [hgoes] at huntorn
                rw [hgoes, hgoes]
                rw [← hlater] at huntorn ⊢
                exact ih (text.length - (place + 1)) (by omega) hdeeper flag (hvisited.step hstep)
                  (huntorn.mono (Nat.le_succ _)) rfl

end Search

/-- A group ends in a mask where it does in the text, if no literal in it is torn. -/
theorem closingAt?_mask_of_untorn (houtside : Outside text place)
    (huntorn : Untorn text place (closingAt? text place)) :
    closingAt? (mask text) place = closingAt? text place := by
  rw [closingAt?_eq] at huntorn
  rw [closingAt?_eq, closingAt?_eq, getElem?_mask_of_outside houtside]
  cases hc : text[place]? with
  | none => rfl
  | some opener =>
      have hplace := (List.getElem?_eq_some_iff.mp hc).1
      obtain ⟨hvisited, hnone⟩ := (outside_iff hplace).mp houtside
      have hbehind := hvisited.step (.char hplace hnone)
      rw [hc, Option.bind_some] at huntorn
      rw [Option.bind_some, Option.bind_some]
      cases hpair : closer? opener with
      | none => rfl
      | some closer =>
          have hmask : (mask text)[place]? = some opener :=
            (getElem?_mask_of_outside houtside).trans hc
          rw [hpair, Option.bind_some, closingOnward?] at huntorn
          rw [Option.bind_some, Option.bind_some, closingOnward?, closingOnward?,
            afterEquals_succ hmask, mask_drop hbehind, afterEquals_succ hc]
          rw [afterEquals_succ hc] at huntorn
          exact closingFrom?_mask hpair (Nat.le_refl 1) _ hbehind (huntorn.mono (Nat.le_succ _))

section Torn

variable {value : Literal}

/-- In the mask of a torn literal with a bracket behind it, the closing quote opens a literal, which
takes the bracket. -/
theorem level_mask_of_torn (h : Literal.read? (value.chars ++ [')']) = some (value, [')']))
    (hcontinued : value.Continued) :
    Level Brackets.all (fun _ => True) (pieces true (mask (value.chars ++ [')']))) := by
  obtain ⟨hopens, -, -⟩ := Literal.read?_eq_some_iff.mp h
  have hclosed : value.body.getLast? = some value.quote := by
    rcases Literal.read?_end h with hnil | ⟨later, hbreak⟩ | hlast
    · exact absurd hnil (by simp)
    · exact absurd hbreak (by simp)
    · exact hlast
  have hmask : mask [')'] = [')'] := mask_of_plain (forall_chars (by decide))
  have hbody : Literal.escapedBody value.quote [')'] = ([')'], []) := by
    rw [Literal.escapedBody_cons (by decide) _ (by simp), Literal.escapedBody]
    intro heq
    exact absurd hopens.isQuote (by rw [← heq]; decide)
  have hread : Literal.read? (value.quote :: [')']) = some (⟨[], value.quote, [')']⟩, []) := by
    rw [read?_of_unmarked (Literal.not_mark_of_quote hopens.isQuote), if_pos hopens.isQuote, hbody]
  obtain ⟨first, blanks, kept, -, hblanks, hkept, hpieces⟩ := pieces_mask_of_continued h hcontinued
  rcases hkept with ⟨-, rfl⟩ | ⟨hopen, -⟩
  · rw [hpieces, hmask, List.singleton_append,
      pieces_of_literal ((Literal.cut?_true _).trans hread), pieces_nil]
    exact .literal ((level_blanks hblanks).append (.literal .nil))
  · exact absurd hclosed hopen

/-- A torn literal spoils the group around it. -/
theorem closingAt?_mask_of_torn (h : Literal.read? (value.chars ++ [')']) = some (value, [')']))
    (hcontinued : value.Continued) :
    closingAt? ('(' :: (value.chars ++ [')'])) 0 = some (value.chars.length + 1) ∧
      closingAt? (mask ('(' :: (value.chars ++ [')']))) 0 = none := by
  constructor
  · refine closingAt?_eq_some_iff.mpr ⟨'(', ')', rfl, rfl, .literal ?_ .nil, ?_, by simp⟩
    · exact Literal.endAt?_eq_some_iff.mpr ⟨value, [')'], h, Nat.add_comm _ _⟩
    · simp
  · have hparen : Literal.read? ('(' :: (value.chars ++ [')'])) = none := by
      rw [← Literal.cut?_true]
      exact cut?_of_other (by decide) (by decide) true _
    rw [mask_of_char hparen, closingAt?_eq]
    show closingFrom? '(' ')' 1 false 1 (pieces true (mask (value.chars ++ [')']))) = none
    rw [← List.append_nil (pieces true _),
      closingFrom?_level (level_mask_of_torn h hcontinued) rfl (Nat.le_refl 1)]
    rfl

end Torn

/-- Groups end in a mask where they end in the text as long as no literal in them is torn, and every
torn literal spoils the group that holds it alone. -/
theorem closingAt?_mask (text : Text) (place : Nat) (value : Literal) :
    (Outside text place → Untorn text place (closingAt? text place) →
      closingAt? (mask text) place = closingAt? text place) ∧
    (Literal.read? (value.chars ++ [')']) = some (value, [')']) → value.Continued →
      closingAt? ('(' :: (value.chars ++ [')'])) 0 = some (value.chars.length + 1) ∧
        closingAt? (mask ('(' :: (value.chars ++ [')']))) 0 = none) :=
  ⟨closingAt?_mask_of_untorn, closingAt?_mask_of_torn⟩

/-- The literals of a text are among its pieces. -/
theorem HasLiteral.mem_pieces (h : HasLiteral text start value) :
    .literal value ∈ pieces true text := by
  obtain ⟨hvisited, rest, hread⟩ := h
  obtain ⟨front, hpieces, -⟩ := hvisited.pieces
  rw [hpieces, pieces_of_literal ((Literal.cut?_true _).trans hread)]
  exact List.mem_append_right _ List.mem_cons_self

/-- A verbatim literal and a template, each with a line break and a bracket in it. -/
def bracedLines : Text := "\x7b @\"\n\x7d\" \x60\n\x7d\x60 \x7d".toList

/-- A literal that is continued over a line break. -/
def tornLiteral : Literal := ⟨[], '"', "\\\n\"".toList⟩

theorem not_continued_bracedLines (h : HasLiteral bracedLines start value) :
    ¬ value.Continued := by
  have hpieces : pieces true bracedLines =
      [.char '\x7b', .char ' ', .literal ⟨['@'], '"', "\n\x7d\"".toList⟩, .char ' ',
        .literal ⟨[], '\x60', "\n\x7d\x60".toList⟩, .char ' ', .char '\x7d'] := by
    decide +kernel
  have hmem := h.mem_pieces
  simp only [hpieces, List.mem_cons, Piece.literal.injEq, reduceCtorEq, false_or, List.not_mem_nil,
    or_false] at hmem
  rcases hmem with rfl | rfl <;> decide

theorem closingAt?_mask_bracedLines :
    (Outside bracedLines 0 ∧ closingAt? bracedLines 0 = some 13 ∧
        closingAt? (mask bracedLines) 0 = some 13) ∧
      tornLiteral.Continued ∧
      closingAt? (mask ('(' :: (tornLiteral.chars ++ [')']))) 0 = none := by
  have houtside : Outside bracedLines 0 :=
    (outside_iff (by decide)).mpr ⟨visited_zero _, by decide⟩
  have hclose : closingAt? bracedLines 0 = some 13 := by decide +kernel
  have huntorn : Untorn bracedLines 0 (closingAt? bracedLines 0) :=
    fun start value hliteral _ _ htorn => not_continued_bracedLines hliteral htorn.1
  obtain ⟨hsame, hspoilt⟩ := closingAt?_mask bracedLines 0 tornLiteral
  exact ⟨⟨houtside, hclose, (hsame houtside huntorn).trans hclose⟩, by decide,
    (hspoilt (by decide) (by decide)).2⟩

/-- A group that holds such a literal alone. -/
def tornGroup : Text := "(\"\\\n\")".toList

theorem closingAt?_mask_ne_tornGroup :
    (Outside tornGroup 0 ∧ tornGroup[0]? = some '(') ∧
      closingAt? (mask tornGroup) 0 ≠ closingAt? tornGroup 0 :=
  ⟨⟨(outside_iff (by decide)).mpr ⟨visited_zero _, by decide⟩, rfl⟩, by decide +kernel⟩

end Text

end ClassDiagram
