import ClassDiagram.Scan.Literal
import ClassDiagram.Text.Blank

/-!
# Pieces

A text read literal by literal: each piece is a literal or a single character outside of all
literals. Every scanner that has to stay out of literals runs over the pieces.

* `chars_pieces`: the pieces spell the text.
* `mask` hides what the literals hold and keeps every position (`length_mask`).
-/

namespace ClassDiagram

/-- A literal, or a character outside of all literals. -/
inductive Piece where
  | literal (value : Literal)
  | char (value : Char)
  deriving DecidableEq, Repr

namespace Piece

/-- The characters of a piece. -/
def chars : Piece → Text
  | literal value => value.chars
  | char value => [value]

/-- A literal with its contents hidden: marks, opening quote and, if the last character is the
quote again, that one are kept. -/
def maskLiteral (value : Literal) : Text :=
  let tail :=
    match value.body.getLast? with
    | some last =>
      if last = value.quote then Text.hide value.body.dropLast ++ [last] else Text.hide value.body
    | none => []
  value.marks ++ value.quote :: tail

/-- A piece with the contents of a literal hidden. -/
def mask : Piece → Text
  | literal value => maskLiteral value
  | char value => [value]

end Piece

namespace Text

/-- The pieces of a text. Unless `marked`, a mark before a quote is a character of its own. -/
def pieces (marked : Bool) (text : Text) : List Piece :=
  match h : Literal.cut? marked text with
  | some (value, rest) => .literal value :: pieces marked rest
  | none =>
    match text with
    | [] => []
    | c :: rest => .char c :: pieces marked rest
termination_by text.length
decreasing_by
  · exact Literal.length_lt_of_cut? h
  · simp

/-- Hides the contents of every literal; positions and line breaks stay. -/
def mask (text : Text) : Text := (pieces true text).flatMap Piece.mask

theorem chars_pieces (marked : Bool) (text : Text) :
    (pieces marked text).flatMap Piece.chars = text := by
  fun_induction pieces marked text with
  | case1 text value rest h ih =>
    rw [List.flatMap_cons, ih, Piece.chars, ← Literal.eq_chars_append_of_cut? h]
  | case2 => rfl
  | case3 c rest h ih => rw [List.flatMap_cons, ih]; rfl

end Text

namespace Piece

theorem length_maskLiteral (value : Literal) :
    (maskLiteral value).length = value.chars.length := by
  have htail : ∀ body : Text, ∀ last, body.getLast? = some last →
      body.dropLast.length + 1 = body.length := by
    intro body last h
    have : body ≠ [] := by rintro rfl; simp at h
    have := List.length_pos_iff.2 this
    simp only [List.length_dropLast]
    omega
  simp only [maskLiteral, Literal.chars, List.length_append, List.length_cons]
  split
  · rename_i last h
    split
    · have := htail _ _ h
      simp only [List.length_append, Text.length_hide, List.length_cons, List.length_nil]
      omega
    · simp
  · rename_i h
    have : value.body = [] := by simpa using h
    simp [this]

theorem length_mask (piece : Piece) : piece.mask.length = piece.chars.length := by
  cases piece with
  | literal value => exact length_maskLiteral value
  | char value => rfl

end Piece

namespace Text

theorem length_mask (text : Text) : (mask text).length = text.length := by
  conv => rhs; rw [← chars_pieces true text]
  unfold mask
  induction pieces true text with
  | nil => rfl
  | cons piece rest ih => simp [List.flatMap_cons, Piece.length_mask, ih]

end Text

end ClassDiagram
