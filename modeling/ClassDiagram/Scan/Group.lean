import ClassDiagram.Scan.Piece

/-!
# Groups

A group is an opening bracket, what it holds, and the bracket that closes it. Only the pair of the
opening bracket counts, literals never do, and the `>` of an arrow closes no angle group.
-/

namespace ClassDiagram

namespace Text

/-- The bracket that closes a group opened by `c`. -/
def closer? (c : Char) : Option Char :=
  match c with
  | '{' => some '}'
  | '(' => some ')'
  | '[' => some ']'
  | '<' => some '>'
  | _ => none

/-- The place of the `closer` that brings `depth` open groups to an end. -/
def closingFrom? (opener closer : Char) (depth : Nat) (afterEquals : Bool) (place : Nat) :
    List Piece → Option Nat
  | [] => none
  | .literal value :: rest =>
    closingFrom? opener closer depth false (place + value.chars.length) rest
  | .char c :: rest =>
    if c = opener then closingFrom? opener closer (depth + 1) false (place + 1) rest
    else if c = closer then
      -- the `>` of an arrow closes nothing
      if opener = '<' ∧ afterEquals then closingFrom? opener closer depth false (place + 1) rest
      else if depth ≤ 1 then some place
      else closingFrom? opener closer (depth - 1) false (place + 1) rest
    else closingFrom? opener closer depth (c == '=') (place + 1) rest

/-- The place of the bracket that closes the group opened by the first character. -/
def closing? : Text → Option Nat
  | [] => none
  | c :: rest => (closer? c).bind fun closer => closingFrom? c closer 0 false 0 (pieces true (c :: rest))

/-- The place of the bracket that closes the group opened at `place`. -/
def closingAt? (text : Text) (place : Nat) : Option Nat :=
  (closing? (text.drop place)).map (· + place)

/-- The place of the bracket that closes the group opened at an index. Before the text no group is
opened. -/
def closingAtIndex? (text : Text) : Int → Option Nat
  | .ofNat place => closingAt? text place
  | .negSucc _ => none

/-- Whether the whole text is one group opened by `opener`. -/
def isGroup (opener : Char) (text : Text) : Bool :=
  text.head? == some opener && closing? text == some (text.length - 1)

/-- What a group at the front of a text holds and what follows it. An unclosed group holds all. -/
def splitGroup (text : Text) : Text × Option Text :=
  match closing? text with
  | some place => ((text.take place).drop 1, some (text.drop (place + 1)))
  | none => (text.drop 1, none)

end Text

end ClassDiagram
