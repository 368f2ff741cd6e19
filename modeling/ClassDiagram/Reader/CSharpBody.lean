import ClassDiagram.Reader.CSharpMember
import ClassDiagram.Text.Line

/-!
# Bodies of C# types

The members of a body are read from a copy in which method bodies, accessor bodies and nested
types are hidden. Two passes run over the copy: one over its statements, and one over its lines,
which finds members beside a statement that could not be read.

* Method bodies keep their braces, property blocks keep their accessor words, and nested types
  disappear with their headers.
-/

namespace ClassDiagram

namespace CSharp

/-- Hides the blocks inside a property block, given what follows its brace and the distance `left`
to the brace that closes it, which is kept unless a block ends in it. -/
def hideAccessors (left : Nat) (text : Text) : Text :=
  match left, text with
  | _, [] => []
  | 0, c :: _ => [c]
  | left + 1, c :: rest =>
    if c = '\x7b' then
      match Text.closing? (c :: rest) with
      | some close =>
        -- a block may end in the brace that closes the property, or go on behind it
        if close = left + 1 then Text.hide ((c :: rest).take (close + 1))
        else if close ≤ left then
          Text.hide ((c :: rest).take (close + 1)) ++ hideAccessors (left - close) (rest.drop close)
        else Text.hide ((c :: rest).take (left + 1)) ++ (rest.drop left).take 1
      | none => Text.hide ((c :: rest).take (left + 1)) ++ (rest.drop left).take 1
    else c :: hideAccessors left rest
termination_by text.length
decreasing_by
  · simp only [List.length_drop, List.length_cons]
    omega
  · simp

/-- The visible form of a block with the text before it, given the place of its closing brace. -/
def hideBlock (before block : Text) (close : Nat) : Text :=
  -- a type keyword behind a parenthesis is a constraint of a method, not a nested type
  let isNested := (headerRule.next? before).any fun header => !(before.take header.offset).contains '('
  if isNested then Text.hide (before ++ block.take (close + 1))
  else if before.contains '(' then
    before ++ block.take 1 ++ Text.hide ((block.take close).drop 1) ++ (block.drop close).take 1
  else before ++ block.take 1 ++ hideAccessors (close - 1) (block.drop 1)

/-- Whether a character bounds the text before a block. -/
def isBound (c : Char) : Bool := c == '\x7b' || c == ';' || c == '\x7d'

/-- Hides method bodies, accessor bodies and nested types; an unclosed block hides all behind it. -/
def hideBlocks (text : Text) : Text :=
  let before := text.takeWhile (!isBound ·)
  match h : text.dropWhile (!isBound ·) with
  | [] => before
  | c :: rest =>
    if c = '\x7b' then
      match Text.closing? (c :: rest) with
      -- what stands behind an unclosed brace is no member of this body
      | none => before ++ c :: Text.hide rest
      | some close => hideBlock before (c :: rest) close ++ hideBlocks (rest.drop close)
    else before ++ c :: hideBlocks rest
termination_by text.length
decreasing_by
  all_goals
    have := (List.dropWhile_sublist (!isBound ·) (l := text)).length_le
    rw [h, List.length_cons] at this
  · simp only [List.length_drop]
    omega
  · omega

/-- The statements of a text at a brace depth, the last being what remains: a statement ends
before a semicolon and behind a brace that closes the outermost block. -/
def statementSegments (depth : Nat) : Text → List Text
  | [] => [[]]
  | c :: rest =>
    if c = '\x7b' then Text.attach [c] (statementSegments (depth + 1) rest)
    else if c = '\x7d' then
      if depth ≤ 1 then [c] :: statementSegments 0 rest
      else Text.attach [c] (statementSegments (depth - 1) rest)
    else if c = ';' ∧ depth = 0 then [] :: statementSegments 0 rest
    else Text.attach [c] (statementSegments depth rest)

/-- The statements of a visible body. -/
def statements (visible : Text) : List Text :=
  let segments := statementSegments 0 visible
  -- a last statement without a semicolon counts if there is anything in it
  if segments.getLast?.all fun last => last.strip.isEmpty then segments.dropLast else segments

/-- The facts of one line of a visible body: a property in one line, or a statement in one line. -/
def lineFacts (owner : String) (raw : Text) : List Fact :=
  let line := dropAttributes raw
  if line.contains '\x7b' && line.contains '\x7d' && line.hasWord ["get", "set", "init"] then
    -- a parenthesis before the brace makes it a method
    let head := line.upTo '\x7b'
    if head.contains '(' then [] else headFacts owner head
  else if line.getLast? = some ';' && !line.dropLast.contains ';' then
    statementFacts owner line.dropLast
  else []

/-- The facts of the members in a body. -/
def memberFacts (owner : String) (body : Text) : List Fact :=
  let visible := hideBlocks body
  -- what both passes find is told twice, and counts once
  (statements visible).flatMap (statementFacts owner) ++ visible.lines.flatMap (lineFacts owner)

/-- The facts of the members of an enumeration. -/
def enumFacts (owner : String) (body : Text) : List Fact :=
  body.splitTop.flatMap fun entry =>
    let item := ((dropAttributes entry).upTo '=').strip
    if isPlainMemberName item then
      [.enumMember owner (String.ofList (unmark item)) (String.ofList item)]
    else []

end CSharp

end ClassDiagram
