import ClassDiagram.Proofs.Scan.Reached

/-!
# Reading a part of a text again

A text that is cut out of another one between two of its pieces is read in the same pieces again: a
literal ends where it ended, because it looks at most one character beyond its end, and what began
no literal begins none now. If it is cut short anywhere else, only the literal in which it ends
changes.

* `Literal.read?_front`: a literal is read again whatever is left of what follows it.
* `IsRead.append_left`, `IsRead.append_right`: parts of what is read are read in the same pieces.
* `frontOf_pieces`: the pieces of a text that is cut short.
-/

namespace ClassDiagram

namespace Literal

/-! ## Literals at the end of a text -/

/-- What an escaped literal holds it holds also at the end of a text. -/
theorem escapedBody_alone {quote : Char} {text body rest : Text}
    (h : escapedBody quote text = (body, rest)) : escapedBody quote body = (body, []) := by
  fun_induction escapedBody quote text generalizing body with
  | case1 =>
      obtain ⟨rfl, -⟩ := Prod.mk.inj h
      rfl
  | case2 c tail ih =>
      obtain ⟨rfl, rfl⟩ := Prod.mk.inj h
      rw [escapedBody, ih rfl]
  | case3 tail hescape =>
      obtain ⟨rfl, -⟩ := Prod.mk.inj h
      rw [escapedBody, if_pos rfl]
      simp
  | case4 c tail hescape hquote hbreak =>
      obtain ⟨rfl, -⟩ := Prod.mk.inj h
      rfl
  | case5 c tail hescape hquote hbreak ih =>
      obtain ⟨rfl, rfl⟩ := Prod.mk.inj h
      rw [escapedBody, if_neg hquote, if_neg hbreak, ih rfl]
      -- a backslash escapes nothing here, as nothing stood behind it in the text either
      intro d later hc hbody
      cases tail with
      | nil => exact absurd hbody (by simp [escapedBody])
      | cons e tail => exact hescape e tail hc rfl

/-- What a verbatim literal holds it holds also at the end of a text. -/
theorem verbatimBody_alone {text body rest : Text} (h : verbatimBody text = (body, rest)) :
    verbatimBody body = (body, []) := by
  fun_induction verbatimBody text generalizing body with
  | case1 =>
      obtain ⟨rfl, -⟩ := Prod.mk.inj h
      rfl
  | case2 tail ih =>
      obtain ⟨rfl, rfl⟩ := Prod.mk.inj h
      rw [verbatimBody, ih rfl]
  | case3 tail hdouble =>
      obtain ⟨rfl, -⟩ := Prod.mk.inj h
      rw [verbatimBody]
      simp
  | case4 c tail hdouble hquote ih =>
      obtain ⟨rfl, rfl⟩ := Prod.mk.inj h
      rw [verbatimBody, ih rfl]
      · exact fun later hc _ => hquote hc
      · exact hquote

/-- A literal is read again from its own characters and a part of what followed it. -/
theorem read?_front {value : Literal} {front back : Text}
    (h : read? (value.chars ++ (front ++ back)) = some (value, front ++ back)) :
    read? (value.chars ++ front) = some (value, front) := by
  cases front with
  | cons next more => exact read?_ends h more
  | nil =>
      obtain ⟨hopens, -, hsplit⟩ := read?_eq_some_iff.mp h
      refine read?_eq_some_iff.mpr ⟨hopens, rfl, ?_⟩
      rw [List.append_nil]
      unfold splitBody at hsplit ⊢
      by_cases hverbatim : '@' ∈ value.marks
      · rw [if_pos hverbatim] at hsplit ⊢
        exact verbatimBody_alone hsplit
      · rw [if_neg hverbatim] at hsplit ⊢
        exact escapedBody_alone hsplit

/-- If a literal begins a text, one begins every longer text. -/
theorem read?_isSome_append {text : Text} (h : (read? text).isSome = true) (rest : Text) :
    (read? (text ++ rest)).isSome = true := by
  obtain ⟨⟨value, tail⟩, hread⟩ := Option.isSome_iff_exists.mp h
  obtain ⟨hopens, rfl, -⟩ := read?_eq_some_iff.mp hread
  rw [chars, List.append_assoc, List.append_assoc, List.cons_append, hopens.read?]
  rfl

/-- Which literals are cut: all, or those without marks. -/
theorem cut?_eq_some_iff {marked : Bool} {text rest : Text} {value : Literal} :
    cut? marked text = some (value, rest) ↔
      read? text = some (value, rest) ∧ (marked = true ∨ value.marks = []) := by
  cases text with
  | nil => simp [cut?, read?]
  | cons c tail =>
      rw [cut?]
      -- the first character is a quote exactly if there are no marks
      have hfirst : read? (c :: tail) = some (value, rest) →
          (isQuote c = true ↔ value.marks = []) := by
        intro hread
        obtain ⟨hopens, htext, -⟩ := read?_eq_some_iff.mp hread
        cases hmarks : value.marks with
        | nil =>
            rw [chars, hmarks] at htext
            rw [(List.cons.inj htext).1]
            exact ⟨fun _ => rfl, fun _ => hopens.isQuote⟩
        | cons mark marks =>
            rw [chars, hmarks] at htext
            have hmark := hopens.marks_marks mark (by simp [hmarks])
            rw [(List.cons.inj htext).1]
            refine ⟨fun hquote => ?_, fun hnil => absurd hnil (by simp)⟩
            rw [not_mark_of_quote hquote] at hmark
            exact absurd hmark (by simp)
      split
      · rename_i hreads
        rw [Bool.or_eq_true] at hreads
        exact ⟨fun hread => ⟨hread, hreads.imp_right (hfirst hread).mp⟩, And.left⟩
      · rename_i hreads
        rw [Bool.or_eq_true] at hreads
        refine ⟨fun hnone => absurd hnone (by simp), ?_⟩
        rintro ⟨hread, hmarks⟩
        exact absurd (hmarks.imp_right (hfirst hread).mpr) hreads

/-- A literal is cut off in the same way if less follows it. -/
theorem cut?_front {marked : Bool} {value : Literal} {front back : Text}
    (h : cut? marked (value.chars ++ (front ++ back)) = some (value, front ++ back)) :
    cut? marked (value.chars ++ front) = some (value, front) := by
  obtain ⟨hread, hmarks⟩ := cut?_eq_some_iff.mp h
  exact cut?_eq_some_iff.mpr ⟨read?_front hread, hmarks⟩

/-- Where no literal begins, none does if less follows. -/
theorem cut?_eq_none_front {marked : Bool} {c : Char} {front back : Text}
    (h : cut? marked (c :: (front ++ back)) = none) : cut? marked (c :: front) = none := by
  rw [cut?] at h ⊢
  split
  · rename_i hreads
    rw [if_pos hreads, ← Option.not_isSome_iff_eq_none] at h
    rw [← Option.not_isSome_iff_eq_none]
    exact fun hsome => h (read?_isSome_append hsome back)
  · rfl

end Literal

namespace Text

/-! ## Parts of what is read -/

/-- Whether pieces are those of the text that they spell. -/
def IsRead (marked : Bool) (read : List Piece) : Prop :=
  pieces marked (read.flatMap Piece.chars) = read

section IsRead

variable {marked : Bool} {rest front back : List Piece}

/-- The pieces of a text are read as such. -/
theorem isRead_pieces (marked : Bool) (text : Text) : IsRead marked (pieces marked text) := by
  rw [IsRead, chars_pieces]

/-- Pieces that begin with a literal are read again if the literal is and the rest is. -/
theorem isRead_literal_cons {value : Literal} :
    IsRead marked (.literal value :: rest) ↔
      Literal.cut? marked (value.chars ++ rest.flatMap Piece.chars) =
        some (value, rest.flatMap Piece.chars) ∧ IsRead marked rest := by
  rw [IsRead, List.flatMap_cons, Piece.chars]
  constructor
  · intro h
    rcases pieces_cases h with ⟨_, tail, heq, hcut, htail⟩ | ⟨_, _, heq, -⟩
    · cases heq
      have hrest := List.append_cancel_left (Literal.eq_chars_append_of_cut? hcut)
      rw [← hrest] at hcut htail
      exact ⟨hcut, htail⟩
    · cases heq
  · rintro ⟨hcut, hrest⟩
    rw [pieces_of_literal hcut, hrest]

/-- Pieces that begin with a character are read again if no literal begins there. -/
theorem isRead_char_cons {c : Char} :
    IsRead marked (.char c :: rest) ↔
      Literal.cut? marked (c :: rest.flatMap Piece.chars) = none ∧ IsRead marked rest := by
  rw [IsRead, List.flatMap_cons, Piece.chars, List.singleton_append]
  constructor
  · intro h
    rcases pieces_cases h with ⟨_, _, heq, -⟩ | ⟨_, tail, heq, htext, hcut, htail⟩
    · cases heq
    · cases heq
      cases htext
      exact ⟨hcut, htail⟩
  · rintro ⟨hcut, hrest⟩
    rw [pieces_of_char hcut, hrest]

/-- How pieces that are read again end is read again. -/
theorem IsRead.append_right (h : IsRead marked (front ++ back)) : IsRead marked back := by
  induction front with
  | nil => exact h
  | cons piece front ih =>
      cases piece with
      | literal value => exact ih (isRead_literal_cons.mp h).2
      | char c => exact ih (isRead_char_cons.mp h).2

/-- How pieces that are read again begin is read again. -/
theorem IsRead.append_left (h : IsRead marked (front ++ back)) : IsRead marked front := by
  induction front with
  | nil => exact pieces_nil
  | cons piece front ih =>
      rw [List.cons_append] at h
      cases piece with
      | literal value =>
          obtain ⟨hcut, hrest⟩ := isRead_literal_cons.mp h
          rw [List.flatMap_append] at hcut
          exact isRead_literal_cons.mpr ⟨Literal.cut?_front hcut, ih hrest⟩
      | char c =>
          obtain ⟨hcut, hrest⟩ := isRead_char_cons.mp h
          rw [List.flatMap_append] at hcut
          exact isRead_char_cons.mpr ⟨Literal.cut?_eq_none_front hcut, ih hrest⟩

end IsRead

/-! ## A text cut short -/

/-- Whether pieces are the first of others, up to a literal at their end. -/
def FrontOf (front whole : List Piece) : Prop :=
  ∃ read, read <+: whole ∧ (front = read ∨ ∃ value, front = read ++ [.literal value])

theorem FrontOf.cons {front whole : List Piece} (h : FrontOf front whole) (piece : Piece) :
    FrontOf (piece :: front) (piece :: whole) := by
  obtain ⟨read, hread, hfront⟩ := h
  refine ⟨piece :: read, List.cons_prefix_cons.mpr ⟨rfl, hread⟩, ?_⟩
  rcases hfront with rfl | ⟨last, rfl⟩
  · exact Or.inl rfl
  · exact Or.inr ⟨last, rfl⟩

/-- Read without marks, the front of a text consists of pieces of that text, up to a literal at its
end that may be longer in the text. -/
theorem frontOf_pieces (front back : Text) :
    FrontOf (pieces false front) (pieces false (front ++ back)) := by
  fun_induction pieces false front with
  | case1 text value rest hcut ih =>
      cases rest with
      | nil => exact ⟨[], List.nil_prefix, Or.inr ⟨value, by rw [pieces_nil, List.nil_append]⟩⟩
      | cons next more =>
          obtain ⟨hvalue, hmarks⟩ := Literal.cut?_eq_some_iff.mp hcut
          have hlonger :
              Literal.cut? false (text ++ back) = some (value, (next :: more) ++ back) := by
            rw [Literal.eq_chars_append_of_read? hvalue, List.append_assoc]
            exact Literal.cut?_eq_some_iff.mpr ⟨Literal.read?_ends hvalue (more ++ back), hmarks⟩
          rw [pieces_of_literal hlonger]
          exact ih.cons _
  | case2 => exact ⟨[], List.nil_prefix, Or.inl rfl⟩
  | case3 c rest hcut ih =>
      -- without marks it is the first character alone that decides
      have hlonger : Literal.cut? false (c :: (rest ++ back)) = none := by
        rw [Literal.cut?] at hcut ⊢
        split
        · rename_i hquote
          have hopens : Literal.Opens [] c := ⟨by simp, by simp, by simpa using hquote, Or.inl rfl⟩
          rw [if_pos hquote] at hcut
          exact absurd ((hopens.read? rest).symm.trans hcut) (by simp)
        · rfl
      rw [List.cons_append, pieces_of_char hlonger]
      exact ih.cons _

end Text

end ClassDiagram
