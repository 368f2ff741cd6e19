import ClassDiagram.Reader.BaseList
import ClassDiagram.Reader.CSharpBody
import ClassDiagram.Scan.Comment

/-!
# Reading C#

A source is read without comments and directives and with its literals masked. Declarations are
found by their headers, one after the other, whatever braces stand or lack between them; the header
is read for parameters, base list and constraints, and the body for members.

* In a base list, the first entry is the base and all others are interfaces; all entries of an
  interface are interfaces.
* Reading goes on behind the brace that opens a body, so that nested types are found as well.
-/

namespace ClassDiagram

namespace CSharp

/-- Empties the lines that hold a directive. -/
def dropDirectives (text : Text) : Text :=
  Text.join ['\n'] ((text.cut (· == '\n')).map fun line =>
    if (line.dropWhile fun c => c == ' ' || c == '\t').head? = some '#' then [] else line)

/-- The text in which declarations are looked for. -/
def content (source : Text) : Text := (dropDirectives source.stripComments).mask

/-- The kind that a keyword declares. -/
def kindOf (keyword : String) : Kind :=
  match keyword with
  | "interface" => .interface
  | "struct" | "record" => .struct
  | "enum" => .enum
  | _ => .cls

/-- The facts of the constraints in a text: each bound behind a `where` and a colon is used. -/
def constraintFacts (owner : String) (text : Text) : List Fact :=
  (Text.clauses "where" text).flatMap fun clause =>
    (clause.past ':').splitTop.flatMap (usesOf owner)

/-- The facts of a parameter list behind a type name: fields of a record, else types used. -/
def primaryFacts (keyword owner : String) (params : Text) : List Fact :=
  if keyword = "record" then
    params.splitTop.flatMap fun param => headFacts owner (dropAttributes param).beforeAssignment
  else (parameterTypes params).flatMap (usesOf owner)

/-- The facts of one entry of a base list. -/
def baseFacts (owner : String) (isBase : Bool) (entry : Text) : List Fact :=
  let (name, arguments) := Text.baseAndArguments (entry.upTo '(').collapse
  if name.isEmpty then []
  else
    let relation : Fact :=
      if isBase then .inherits owner (String.ofList name) else .realizes owner (String.ofList name)
    relation :: usesOf owner arguments

/-- The facts of a base list: its first entry is the base unless an interface is declared. -/
def baseListFacts (keyword owner : String) (list : Text) : List Fact :=
  match list.splitTop with
  | [] => []
  | first :: others =>
    baseFacts owner (keyword != "interface") first ++ others.flatMap (baseFacts owner false)

/-- The facts of what stands between the name of a type and its body. -/
def headerFacts (keyword owner : String) (header : Text) : List Fact :=
  let rest := Text.afterTypeParameters header.strip
  let primary := rest.head? == some '('
  -- a parameter list that is not closed takes all, base list and constraints included
  let (params, behind) := Text.splitGroup rest
  let lead := if primary then primaryFacts keyword owner params else []
  let rest := if primary then (behind.getD []).strip else rest
  lead ++
    if rest.head? = some ':' ∧ keyword ≠ "enum" then
      -- constraints stand behind the base list, but are told before it
      match Text.wordPlace? "where" rest with
      | some place =>
        constraintFacts owner (rest.drop place) ++
          baseListFacts keyword owner ((rest.take place).drop 1)
      | none => baseListFacts keyword owner (rest.drop 1)
    else constraintFacts owner rest

/-- Where the header behind a type name ends, and whether a body begins there: at the brace of
the body, else at a semicolon, but in any case before the next header. -/
def headerEnd (rest : Text) : Nat × Bool :=
  let start := rest.bodyStart?
  let stop := start.getD ((Text.indexOf? [';'] rest).getD rest.length)
  -- a header in between means that the brace belongs to a later type
  match headerRule.next? (rest.take stop) with
  | some following => (following.offset, false)
  | none => (stop, start.isSome)

/-- The facts of the body that begins at `start`, or none if it is never closed. -/
def bodyFacts? (keyword owner : String) (rest : Text) (start : Nat) : Option (List Fact) :=
  (rest.closingAt? start).map fun close =>
    let body := (rest.take close).drop (start + 1)
    if keyword = "enum" then enumFacts owner body else memberFacts owner body

/-- The facts of a masked text that goes on at `offset`. -/
def factsFrom (offset : Nat) (text : Text) : List Fact :=
  match h : headerRule.next? text with
  | none => []
  | some header =>
    let owner := String.ofList (unmark header.name)
    let place := offset + header.offset
    let behind := offset + (text.length - header.rest.length)
    let (stop, hasBody) := headerEnd header.rest
    let declaration := .declares owner (kindOf header.keyword) header.keyword (some place) ::
      headerFacts header.keyword owner (header.rest.take stop)
    if hasBody then
      match bodyFacts? header.keyword owner header.rest stop with
      | some members =>
        -- the body is read again for nested types
        declaration ++ members ++ factsFrom (behind + stop + 1) (header.rest.drop (stop + 1))
      -- without an end of the body, reading goes on right behind the name
      | none => declaration ++ .openBody owner :: factsFrom behind header.rest
    else declaration ++ factsFrom behind header.rest
termination_by text.length
decreasing_by
  all_goals have := HeaderRule.length_rest_lt_of_next? h
  · simp only [List.length_drop]
    omega
  · omega
  · omega

/-- The facts of a source. -/
def facts (source : Text) : List Fact := factsFrom 0 (content source)

end CSharp

end ClassDiagram
