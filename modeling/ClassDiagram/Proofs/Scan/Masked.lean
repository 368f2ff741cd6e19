import ClassDiagram.Proofs.Scan.Places

/-!
# Masks

A mask keeps every place of a text. Outside of the literals it is the text, and inside of them it
keeps the marks, the opening quote and the closing one and is blank elsewhere. Whether a literal is
closed is told by its last character alone, which may as well be an escaped quote before the end of
the line.

* `hide_mask`: a mask has the line breaks of its text and no others.
* `mask_drop`: from a place on to which the scan comes, a mask is that of the text from there on.
* `getElem?_maskLiteral`: what becomes of each character of a literal.
* `mask_faithful`: all that for a whole text.
-/

namespace ClassDiagram

namespace Text

variable {text rest : Text} {value : Literal} {place start : Nat}

/-! ## A mask place by place -/

/-- A literal at the start of a text is masked first. -/
theorem mask_of_literal (h : Literal.read? text = some (value, rest)) :
    mask text = Piece.maskLiteral value ++ mask rest := by
  rw [mask, pieces_of_literal ((Literal.cut?_true _).trans h)]
  rfl

/-- A character at the start of a text that begins no literal stays. -/
theorem mask_of_char {c : Char} (h : Literal.read? (c :: rest) = none) :
    mask (c :: rest) = c :: mask rest := by
  rw [mask, pieces_of_char ((Literal.cut?_true _).trans h)]
  rfl

/-- A masked literal keeps its last character if that is its quote, and is blank up to there. -/
theorem maskLiteral_cases (value : Literal) :
    (∃ inner, value.body = inner ++ [value.quote] ∧
        Piece.maskLiteral value = value.marks ++ value.quote :: (hide inner ++ [value.quote])) ∨
      (value.body.getLast? ≠ some value.quote ∧
        Piece.maskLiteral value = value.marks ++ value.quote :: hide value.body) := by
  by_cases hlast : value.body.getLast? = some value.quote
  · obtain ⟨inner, hbody⟩ := List.getLast?_eq_some_iff.mp hlast
    refine Or.inl ⟨inner, hbody, ?_⟩
    rw [← maskLiteral_closed, ← hbody]
  · exact Or.inr ⟨hlast, maskLiteral_open _ hlast⟩

theorem hide_append (text other : Text) : hide (text ++ other) = hide text ++ hide other :=
  List.map_append

theorem hide_cons (c : Char) (text : Text) : hide (c :: text) = hideChar c :: hide text := rfl

/-- What is hidden is not changed by hiding it again. -/
theorem hide_hide (text : Text) : hide (hide text) = hide text := by
  have hchar : hideChar ∘ hideChar = hideChar := by
    funext c
    by_cases hc : c = '\n' <;> simp [hideChar, hc]
  rw [hide, hide, List.map_map, hchar]

/-- A mask has the line breaks of its text and no others. -/
theorem hide_mask (text : Text) : hide (mask text) = hide text := by
  have hpiece : ∀ piece : Piece, hide piece.mask = hide piece.chars := by
    intro piece
    cases piece with
    | char c => rfl
    | literal value =>
        show hide (Piece.maskLiteral value) = hide (value.marks ++ value.quote :: value.body)
        rcases maskLiteral_cases value with ⟨inner, hbody, hmask⟩ | ⟨-, hmask⟩
        · simp only [hmask, hbody, hide_append, hide_cons, hide_hide]
        · simp only [hmask, hide_append, hide_cons, hide_hide]
  conv => rhs; rw [← chars_pieces true text]
  rw [mask]
  induction pieces true text with
  | nil => rfl
  | cons piece rest ih =>
      rw [List.flatMap_cons, List.flatMap_cons, hide_append, hide_append, hpiece, ih]

/-- Masking keeps the length. -/
theorem length_flatMap_mask (pieces : List Piece) :
    (pieces.flatMap Piece.mask).length = (pieces.flatMap Piece.chars).length := by
  induction pieces with
  | nil => rfl
  | cons piece rest ih =>
      rw [List.flatMap_cons, List.flatMap_cons, List.length_append, List.length_append,
        Piece.length_mask, ih]

/-- From a place on to which the scan comes, a mask is the mask of the text from there on. -/
theorem mask_drop (h : Visited text place) : (mask text).drop place = mask (text.drop place) := by
  obtain ⟨front, hpieces, hlength⟩ := h.pieces
  rw [mask, hpieces, List.flatMap_append]
  exact List.drop_left' ((length_flatMap_mask front).trans hlength)

/-- Outside of all literals a mask is the text. -/
theorem getElem?_mask_of_outside (h : Outside text place) : (mask text)[place]? = text[place]? := by
  by_cases hplace : place < text.length
  · obtain ⟨hvisited, hnone⟩ := (outside_iff hplace).mp h
    rw [Literal.endAt?_eq_none_iff, List.drop_eq_getElem_cons hplace] at hnone
    rw [← List.head?_drop, mask_drop hvisited, List.drop_eq_getElem_cons hplace, mask_of_char hnone,
      List.getElem?_eq_getElem hplace]
    rfl
  · rw [List.getElem?_eq_none (Nat.le_of_not_lt hplace),
      List.getElem?_eq_none (by rw [length_mask]; exact Nat.le_of_not_lt hplace)]

/-- A hidden character is a space, unless it is a line break. -/
theorem getElem?_hide {k : Nat} (h : k < text.length) :
    (hide text)[k]? = some (if text[k]? = some '\n' then '\n' else ' ') := by
  rw [hide, List.getElem?_map, List.getElem?_eq_getElem h]
  simp [hideChar]

section Quoted

variable {marks tail : Text} {quote : Char} {k : Nat}

/-- Up to the opening quote, what stands behind it does not count. -/
theorem getElem?_upTo_quote (h : k ≤ marks.length) (other : Text) :
    (marks ++ quote :: tail)[k]? = (marks ++ quote :: other)[k]? := by
  have hk : k < (marks ++ [quote]).length := by
    rw [List.length_append, List.length_singleton]
    omega
  rw [List.append_cons, List.append_cons _ _ other, List.getElem?_append_left hk,
    List.getElem?_append_left hk]

/-- A place behind the opening quote, counted from there. -/
theorem getElem?_behind_quote : (marks ++ quote :: tail)[marks.length + 1 + k]? = tail[k]? := by
  rw [List.append_cons, List.getElem?_append_right (by simp)]
  congr 1
  simp

end Quoted

/-- A masked literal keeps all up to its opening quote, and its last character if that is the quote
again. -/
theorem getElem?_maskLiteral {k : Nat} (h : k < value.chars.length) :
    (Piece.maskLiteral value)[k]? =
      if k ≤ value.marks.length ∨ (k + 1 = value.chars.length ∧ value.chars[k]? = some value.quote)
      then value.chars[k]? else some (if value.chars[k]? = some '\n' then '\n' else ' ') := by
  have hlength : value.chars.length = value.marks.length + 1 + value.body.length := by
    rw [Literal.chars, List.length_append, List.length_cons]
    omega
  rcases Nat.lt_or_ge value.marks.length k with hk | hk
  · obtain ⟨j, rfl⟩ : ∃ j, k = value.marks.length + 1 + j := ⟨k - value.marks.length - 1, by omega⟩
    have hj : j < value.body.length := by omega
    rw [hlength, Literal.chars, getElem?_behind_quote]
    rcases maskLiteral_cases value with ⟨inner, hbody, hmask⟩ | ⟨hlast, hmask⟩
    · rw [hmask, getElem?_behind_quote, hbody]
      rw [hbody, List.length_append, List.length_singleton] at hj
      rcases Nat.lt_or_ge j inner.length with hinner | hinner
      · rw [if_neg (by simp; omega), List.getElem?_append_left (by simpa using hinner),
          List.getElem?_append_left hinner, getElem?_hide hinner]
      -- the last character is the quote
      · obtain rfl : j = inner.length := by omega
        rw [if_pos (Or.inr ⟨by simp; omega, by simp⟩)]
        simp
    · rw [hmask, getElem?_behind_quote, if_neg, getElem?_hide hj]
      rintro (hle | ⟨hend, hquote⟩)
      · omega
      · refine hlast ?_
        rw [List.getLast?_eq_getElem?, ← hquote]
        congr 1
        omega
  · rw [if_pos (Or.inl hk), Literal.chars]
    rcases maskLiteral_cases value with ⟨inner, -, hmask⟩ | ⟨-, hmask⟩
    · rw [hmask, getElem?_upTo_quote hk]
    · rw [hmask, getElem?_upTo_quote hk]

/-- A mask keeps the length of a text and its line breaks and is the text outside of all literals.
In each literal it keeps the marks, the opening quote and, if that is the quote again, the last
character, and is blank elsewhere. -/
theorem mask_faithful (text : Text) :
    SameShape (mask text) text ∧
      (∀ place, Outside text place → (mask text)[place]? = text[place]?) ∧
      ∀ start value, HasLiteral text start value → ∀ k < value.chars.length,
        (mask text)[start + k]? =
          if k ≤ value.marks.length ∨
              (k + 1 = value.chars.length ∧ text[start + k]? = some value.quote)
          then text[start + k]? else some (if text[start + k]? = some '\n' then '\n' else ' ') := by
  refine ⟨sameShape_iff.mpr (hide_mask text), fun _ => getElem?_mask_of_outside, ?_⟩
  rintro start value ⟨hvisited, rest, hread⟩ k hk
  have htext : text[start + k]? = value.chars[k]? := by
    rw [← List.getElem?_drop, Literal.eq_chars_append_of_read? hread, List.getElem?_append_left hk]
  rw [← List.getElem?_drop, mask_drop hvisited, mask_of_literal hread,
    List.getElem?_append_left (by rwa [Piece.length_maskLiteral]), getElem?_maskLiteral hk, htext]

/-- A verbatim literal with a doubled quote, and one with a bracket in it. -/
def quotedSum : Text := "@\"a\"\"b\" + '('".toList

theorem mask_faithful_quotedSum :
    HasLiteral quotedSum 0 ⟨['@'], '"', "a\"\"b\"".toList⟩ ∧ (mask quotedSum)[3]? = some ' ' ∧
      (mask quotedSum)[6]? = some '"' ∧ Outside quotedSum 8 ∧ (mask quotedSum)[8]? = some '+' := by
  obtain ⟨-, hmask, hmaskLiteral⟩ := mask_faithful quotedSum
  have hliteral : HasLiteral quotedSum 0 ⟨['@'], '"', "a\"\"b\"".toList⟩ :=
    ⟨visited_zero _, _, rfl⟩
  have hvisited : Visited quotedSum 8 :=
    ((visited_zero _).step (.literal hliteral.endAt?)).step (.char (by decide) (by decide))
  have houtside : Outside quotedSum 8 := (outside_iff (by decide)).mpr ⟨hvisited, by decide⟩
  exact ⟨hliteral, (hmaskLiteral 0 _ hliteral 3 (by decide)).trans (by decide),
    (hmaskLiteral 0 _ hliteral 6 (by decide)).trans (by decide), houtside, hmask 8 houtside⟩

end Text

end ClassDiagram
