import ClassDiagram.Scan.Piece

/-!
# Nesting

Which brackets nest, how deep a place is, and what is found outside of all nesting. Depth never
goes below zero, so a stray closing bracket changes nothing, and the `>` of an arrow `=>` closes
nothing.

* `topLevel?` finds a target outside of all nesting.
* `bodyStart?` finds the brace that opens a body.
-/

namespace ClassDiagram

/-- The brackets that nest: parentheses and square brackets always, braces and angle brackets if
so chosen. -/
structure Brackets where
  braces : Bool
  angles : Bool
  deriving DecidableEq, Repr

namespace Brackets

/-- All four pairs. -/
def all : Brackets := ⟨true, true⟩

/-- Whether `c` opens a nesting. -/
def opens (brackets : Brackets) (c : Char) : Bool :=
  c == '(' || c == '[' || (brackets.braces && c == '{') || (brackets.angles && c == '<')

/-- Whether `c` closes a nesting, given whether an equals sign stands before it. -/
def closes (brackets : Brackets) (afterEquals : Bool) (c : Char) : Bool :=
  c == ')' || c == ']' || (brackets.braces && c == '}') ||
    (brackets.angles && c == '>' && !afterEquals)

/-- The depth behind `c`. -/
def depthAfter (brackets : Brackets) (depth : Nat) (afterEquals : Bool) (c : Char) : Nat :=
  if brackets.opens c then depth + 1
  else if brackets.closes afterEquals c then depth - 1
  else depth

end Brackets

namespace Text

/-- Whether an equals sign at the front of `text` is a plain assignment: no part of `==`, `=>`,
`<=`, `>=` or `!=`. -/
def isAssignment (previous : Option Char) (text : Text) : Bool :=
  text.head? == some '=' &&
    !((text.drop 1).head? == some '=' || (text.drop 1).head? == some '>') &&
    !(previous == some '=' || previous == some '!' || previous == some '<' ||
      previous == some '>')

/-- Whether `target` stands at the front of `text`; an equals sign only as an assignment. -/
def standsAt (target : Text) (previous : Option Char) (text : Text) : Bool :=
  if target = ['='] then isAssignment previous text else target.isPrefixOf text

/-- The place of the first `target` at depth zero, reading on at the given depth behind the
character `previous`. Literals have to be masked. -/
def topLevelFrom? (target : Text) (depth : Nat) (previous : Option Char) : Text → Option Nat
  | [] => none
  | c :: rest =>
    if depth = 0 ∧ standsAt target previous (c :: rest) then some 0
    else
      let deeper := Brackets.all.depthAfter depth (previous == some '=') c
      (topLevelFrom? target deeper (some c) rest).map (· + 1)

/-- The place of the first `target` outside of all nesting, at or behind `start`. -/
def topLevel? (target : Text) (text : Text) (start : Nat := 0) : Option Nat :=
  let previous := if start = 0 then none else text[start - 1]?
  (topLevelFrom? target 0 previous (text.drop start)).map (· + start)

/-- What stands before the first plain assignment outside of all nesting. -/
def beforeAssignment (text : Text) : Text :=
  match topLevel? ['='] text with
  | some place => text.take place
  | none => text

/-- The place of the brace that opens a body, reading on at the given depth. A semicolon outside
of all nesting ends the search. -/
def bodyStartFrom? (angles : Bool) (depth : Nat) (afterEquals : Bool) (place : Nat) :
    List Piece → Option Nat
  | [] => none
  | .literal value :: rest => bodyStartFrom? angles depth false (place + value.chars.length) rest
  | .char c :: rest =>
    -- braces do not nest here, since the first one outside of the others is looked for
    let brackets : Brackets := ⟨false, angles⟩
    if depth = 0 ∧ c = '{' then some place
    else if depth = 0 ∧ c = ';' then none
    else
      let deeper := brackets.depthAfter depth afterEquals c
      bodyStartFrom? angles deeper (c == '=') (place + 1) rest

/-- The place of the brace that opens the body of a declaration whose header goes on at `start`.
Parenthesised text and, with `angles`, type arguments are passed over. -/
def bodyStart? (text : Text) (start : Nat := 0) (angles : Bool := false) : Option Nat :=
  let afterEquals := start ≠ 0 && text[start - 1]? == some '='
  bodyStartFrom? angles 0 afterEquals start (pieces true (text.drop start))

end Text

end ClassDiagram
