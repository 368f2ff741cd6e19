import ClassDiagram.Proofs.Scan.Balanced

/-!
# Plain texts

A text without quotes, marks and slashes has neither literals nor comments: the passes that remove
or hide those leave it alone.
-/

namespace ClassDiagram

namespace Text

/-- A character that begins neither a literal nor a comment. -/
def isPlain (c : Char) : Bool := !(Literal.isQuote c || Literal.isMark c || c == '/')

theorem not_quote_of_plain {c : Char} (h : isPlain c = true) : Literal.isQuote c = false := by
  simp only [isPlain, Bool.not_eq_true', Bool.or_eq_false_iff] at h
  exact h.1.1

theorem not_mark_of_plain {c : Char} (h : isPlain c = true) : Literal.isMark c = false := by
  simp only [isPlain, Bool.not_eq_true', Bool.or_eq_false_iff] at h
  exact h.1.2

theorem ne_slash_of_plain {c : Char} (h : isPlain c = true) : c ≠ '/' := by
  simp only [isPlain, Bool.not_eq_true', Bool.or_eq_false_iff, beq_eq_false_iff_ne] at h
  exact h.2

/-- There are no comments in a plain text. -/
theorem stripComments_of_plain {text : Text} (h : ∀ c ∈ text, isPlain c = true) :
    stripComments text = text := by
  fun_induction stripComments text with
  | case1 text value rest hcut _ _ =>
      cases text with
      | nil => exact absurd hcut (by simp [Literal.cut?])
      | cons c tail =>
          have hc := h c List.mem_cons_self
          rw [cut?_of_other (not_quote_of_plain hc) (not_mark_of_plain hc)] at hcut
          exact absurd hcut (by simp)
  | case2 => rfl
  | case3 => exact absurd rfl (ne_slash_of_plain (h '/' List.mem_cons_self))
  | case4 => exact absurd rfl (ne_slash_of_plain (h '/' List.mem_cons_self))
  | case5 c rest _ _ _ ih => rw [ih fun d hd => h d (List.mem_cons_of_mem _ hd)]

/-- The characters of a plain text are pieces of their own, whatever follows. -/
theorem pieces_plain_append {text : Text} (h : ∀ c ∈ text, isPlain c = true) (marked : Bool)
    (rest : Text) : pieces marked (text ++ rest) = text.map Piece.char ++ pieces marked rest := by
  induction text with
  | nil => rfl
  | cons c others ih =>
      have hc := h c List.mem_cons_self
      rw [List.cons_append, pieces_cons (not_quote_of_plain hc) (not_mark_of_plain hc),
        ih fun d hd => h d (List.mem_cons_of_mem _ hd)]
      rfl

/-- Each character of a plain text is a piece. -/
theorem pieces_of_plain {text : Text} (h : ∀ c ∈ text, isPlain c = true) (marked : Bool) :
    pieces marked text = text.map Piece.char := by
  have hall := pieces_plain_append h marked []
  rwa [List.append_nil, pieces_nil, List.append_nil] at hall

/-- The mask of single characters. -/
theorem flatMap_mask_map (text : Text) : (text.map Piece.char).flatMap Piece.mask = text := by
  rw [List.flatMap_map]
  exact List.flatMap_singleton' text

/-- There is nothing to mask in a plain text. -/
theorem mask_of_plain {text : Text} (h : ∀ c ∈ text, isPlain c = true) : mask text = text := by
  unfold mask
  rw [pieces_of_plain h, flatMap_mask_map]

/-- Cutting at a character and joining with it again changes nothing. -/
theorem join_cut (c : Char) (text : Text) : join [c] (cut (· == c) text) = text := by
  induction text with
  | nil => rfl
  | cons first rest ih =>
      rw [cut]
      cases hcut : cut (· == c) rest with
      | nil => exact absurd hcut (cut_ne_nil _ _)
      | cons segment others =>
          rw [hcut] at ih
          split
          · rename_i heq
            rw [join, List.intercalate_cons_cons, List.nil_append, List.singleton_append,
              ← beq_iff_eq.mp heq]
            rw [join, ← beq_iff_eq.mp heq] at ih
            rw [ih]
          · cases others with
            | nil => simpa [attach, join] using ih
            | cons second more =>
                rw [join, List.intercalate_cons_cons] at ih
                rw [attach, join, List.intercalate_cons_cons, ← ih]
                rfl

end Text

end ClassDiagram
