import ClassDiagram.Text.Basic

/-!
# Lines

The line breaks of a text that is shown to people, and the lines between them. They are more than
the line feed: a carriage return, the vertical tab and the form feed, the information separators,
the next-line control and the two Unicode separators break a line as well.
-/

namespace ClassDiagram

namespace Text

/-- The characters that end a line. -/
def isLineBreak (c : Char) : Bool :=
  let n := c.toNat
  (10 ≤ n && n ≤ 13) || (28 ≤ n && n ≤ 30) || n == 0x85 || n == 0x2028 || n == 0x2029

/-- The lines of a text without their breaks. A carriage return with a line feed behind it is one
break, and a break at the end of the text opens no further line. -/
def lines : Text → List Text
  | [] => []
  | '\r' :: '\n' :: rest => [] :: lines rest
  | c :: rest => if isLineBreak c then [] :: lines rest else attach [c] (lines rest)

/-- Makes every line end in a single line feed: a carriage return becomes one, together with the
line feed behind it if there is one. -/
def unifyBreaks : Text → Text
  | [] => []
  | '\r' :: '\n' :: rest => '\n' :: unifyBreaks rest
  | '\r' :: rest => '\n' :: unifyBreaks rest
  | c :: rest => c :: unifyBreaks rest

end Text

end ClassDiagram
