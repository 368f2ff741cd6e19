import ClassDiagram.Scan.Literal

/-!
# Comments

Removal of line comments (`//`) and block comments (`/* */`) outside of literals. A block comment
leaves its line breaks behind, so that line-oriented passes still see the same boundaries.
-/

namespace ClassDiagram

namespace Text

/-- Splits behind the end mark of a block comment, given what follows its opening mark; without
an end mark the comment takes all. -/
def blockComment : Text → Text × Text
  | [] => ([], [])
  | '*' :: '/' :: rest => (['*', '/'], rest)
  | c :: rest => (c :: (blockComment rest).1, (blockComment rest).2)

theorem length_blockComment_le (text : Text) : (blockComment text).2.length ≤ text.length := by
  fun_induction blockComment text with
  | case1 => exact Nat.le_refl _
  | case2 rest =>
    simp only [List.length_cons]
    omega
  | case3 c rest _ ih =>
    simp only [List.length_cons]
    omega

/-- Removes the comments; block comments are replaced by the line breaks in them. -/
def stripComments (text : Text) : Text :=
  match (Literal.cut? true text).attach with
  | some ⟨(value, rest), h⟩ => value.chars ++ stripComments rest
  | none =>
    match text with
    | [] => []
    | '/' :: '/' :: rest => stripComments (rest.dropWhile (· != '\n'))
    | '/' :: '*' :: rest =>
      (blockComment rest).1.filter (· == '\n') ++ stripComments (blockComment rest).2
    | c :: rest => c :: stripComments rest
termination_by text.length
decreasing_by
  · exact Literal.length_lt_of_cut? h
  · have := (List.dropWhile_sublist (· != '\n') (l := rest)).length_le
    simp only [List.length_cons]
    omega
  · have := length_blockComment_le rest
    simp only [List.length_cons]
    omega
  · simp

end Text

end ClassDiagram
