import ClassDiagram.Scan.Nesting

/-!
# Logical lines of Python

A logical line is what stands between two line breaks that count: a break inside brackets or
behind a backslash does not. Comments are removed, triple-quoted strings are reduced to two quotes,
and every line carries its indentation, a tab counting as four columns. Blank lines are dropped.
-/

namespace ClassDiagram

namespace Python

/-- A logical line: its indentation and its text without blanks at the ends. -/
structure LogicalLine where
  indent : Nat
  text : Text
  deriving DecidableEq, Repr

/-- The columns that a tab takes. -/
def tabWidth : Nat := 4

/-- Whether a character indents. -/
def isIndent (c : Char) : Bool := c == ' ' || c == '\t'

/-- The columns that some indentation takes. -/
def columns (lead : Text) : Nat :=
  lead.foldr (fun c rest => (if c = '\t' then tabWidth else 1) + rest) 0

/-- The indentation at the front of a text, in columns, and what follows it. -/
def splitIndent (text : Text) : Nat × Text :=
  (columns (text.takeWhile isIndent), text.dropWhile isIndent)

/-- What follows a triple-quoted string, given what stands behind its opening quotes and the
character before that. Quotes behind a backslash do not close it. -/
def afterTriple (quote : Char) (previous : Char) : Text → Text
  | [] => []
  | c :: rest =>
    if c = quote ∧ [quote, quote].isPrefixOf rest ∧ previous ≠ '\\' then rest.drop 2
    else afterTriple quote c rest

theorem length_afterTriple_le (quote previous : Char) (text : Text) :
    (afterTriple quote previous text).length ≤ text.length := by
  fun_induction afterTriple quote previous text with
  | case1 => simp
  | case2 =>
    simp only [List.length_drop, List.length_cons]
    omega
  | case3 _ _ _ _ ih => exact Nat.le_succ_of_le ih

/-- The brackets in which a line break does not count. -/
def lineBrackets : Brackets := ⟨true, false⟩

/-- Puts `front` before the line that is being read. -/
def prepend (front : Text) (lines : Text × List (Nat × Text)) : Text × List (Nat × Text) :=
  (front ++ lines.1, lines.2)

/-- The rest of the line that is being read at a bracket depth, and the lines behind it with their
indentations. -/
def scan (depth : Nat) (text : Text) : Text × List (Nat × Text) :=
  match text with
  | [] => ([], [])
  | c :: rest =>
    if c = '"' ∨ c = '\'' then
      -- three quotes in a row, whether or not they are closed
      if [c, c].isPrefixOf rest then
        prepend [c, c] (scan depth (afterTriple c c (rest.drop 2)))
      else
        match h : Literal.cut? false (c :: rest) with
        | some (value, behind) => prepend value.chars (scan depth behind)
        | none => prepend [c] (scan depth rest)
    else if c = '#' then scan depth (rest.dropWhile (· != '\n'))
    else if c = '\\' ∧ rest.head? = some '\n' then prepend [' '] (scan depth (rest.drop 1))
    else if c = '\n' then
      -- inside brackets a line break is a blank
      if 0 < depth then prepend [' '] (scan depth rest)
      else
        let next := scan 0 (rest.dropWhile isIndent)
        ([], ((splitIndent rest).1, next.1) :: next.2)
    else prepend [c] (scan (lineBrackets.depthAfter depth false c) rest)
termination_by text.length
decreasing_by
  · have := length_afterTriple_le c c (rest.drop 2)
    simp only [List.length_drop] at this
    simp only [List.length_cons]
    omega
  · exact Literal.length_lt_of_cut? h
  · simp
  · have := (List.dropWhile_sublist (· != '\n') (l := rest)).length_le
    simp only [List.length_cons]
    omega
  · simp only [List.length_drop, List.length_cons]
    omega
  · simp
  · have := (List.dropWhile_sublist isIndent (l := rest)).length_le
    simp only [List.length_cons]
    omega
  · simp

/-- The lines of a text with their indentations, blank ones included. -/
def rawLines (text : Text) : List (Nat × Text) :=
  let (indent, body) := splitIndent text
  let (first, others) := scan 0 body
  (indent, first) :: others

/-- The logical lines of a text. -/
def logicalLines (text : Text) : List LogicalLine :=
  (rawLines text).filterMap fun (indent, line) =>
    let stripped := line.strip
    if stripped.isEmpty then none else some ⟨indent, stripped⟩

end Python

end ClassDiagram
