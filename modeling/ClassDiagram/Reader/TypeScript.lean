import ClassDiagram.Reader.BaseList
import ClassDiagram.Reader.Header
import ClassDiagram.Reader.TypeScriptMember
import ClassDiagram.Scan.Comment

/-!
# Reading TypeScript

A source is read without comments and with its literals masked, in two passes: first the type
aliases whose right side holds an object shape, which count as interfaces, then the declarations
of classes, interfaces and enumerations.

* The members of an alias stand in its shapes; the operands outside of the shapes are used.
* A declaration takes the next brace outside of all nesting as its body, and reading goes on
  behind the body.
-/

namespace ClassDiagram

namespace TypeScript

/-- The text in which declarations are looked for. -/
def content (source : Text) : Text := source.stripComments.mask

/-! ### Headers -/

/-- One of some keywords and a name at the front of a text. -/
def keywordAndName? (keywords : List String) (text : Text) : Option (String × Text × Text) :=
  let (word, behind) := Text.spanWord text
  if keywords.contains (String.ofList word) then
    ((Text.afterBlanks? behind).bind Text.dollarName?).map fun (name, rest) =>
      (String.ofList word, name, rest)
  else none

theorem length_lt_of_keywordAndName? {keywords : List String} {text name rest : Text}
    {keyword : String} (h : keywordAndName? keywords text = some (keyword, name, rest)) :
    rest.length < text.length := by
  simp only [keywordAndName?] at h
  split at h
  · obtain ⟨⟨inner, behind⟩, hfound, heq⟩ := Option.map_eq_some_iff.1 h
    obtain ⟨blank, hblank, hname⟩ := Option.bind_eq_some_iff.1 hfound
    have h1 := Text.length_spanWord_le text
    have h2 := Text.length_lt_of_afterBlanks? hblank
    have h3 := Text.length_lt_of_nameBy? hname
    simp only [Prod.mk.injEq] at heq
    rw [← heq.2.2]
    omega
  · simp at h

/-- How declarations are announced. -/
def headerRule : HeaderRule where
  read? := keywordAndName? ["class", "interface", "enum"]
  isReserved := fun name => name == "extends" || name == "implements"
  shorter := length_lt_of_keywordAndName?

/-- An alias at the front of a text, with the blanks behind its name. -/
def alias? (text : Text) : Option (String × Text × Text) :=
  (keywordAndName? ["type"] text).map fun (keyword, name, rest) => (keyword, name, rest.stripStart)

theorem length_lt_of_alias? {text name rest : Text} {keyword : String}
    (h : alias? text = some (keyword, name, rest)) : rest.length < text.length := by
  obtain ⟨⟨inner, innerName, behind⟩, hfound, heq⟩ := Option.map_eq_some_iff.1 h
  have h1 := length_lt_of_keywordAndName? hfound
  have h2 := Text.length_stripStart_le behind
  simp only [Prod.mk.injEq] at heq
  rw [← heq.2.2]
  omega

/-- How aliases are announced. -/
def aliasRule : HeaderRule where
  read? := alias?
  isReserved := fun _ => false
  shorter := length_lt_of_alias?

/-! ### Aliases -/

/-- Whether the right side of an alias ends at a line break: what was read last is no operator,
and the next line starts with none. -/
def endsAtBreak (last : Option Char) (following : Text) : Bool :=
  let next := following.stripStart
  last.any (fun c => !(['|', '&', '=', ',', ':', '<', '('].contains c)) &&
    !(next.head? == some '|' || next.head? == some '&' || ['=', '>'].isPrefixOf next)

/-- The right side of an alias: up to a semicolon or a line break outside of all nesting that
ends it. `last` is the last character read that is no blank. -/
def rightSideFrom (depth : Nat) (afterEquals : Bool) (last : Option Char) : Text → Text
  | [] => []
  | c :: rest =>
    if depth = 0 ∧ (c = ';' ∨ (c = '\n' ∧ endsAtBreak last rest)) then []
    else
      let deeper := Brackets.all.depthAfter depth afterEquals c
      c :: rightSideFrom deeper (c == '=') (if Text.isBlank c then last else some c) rest

/-- The right side of an alias, given what follows its name. -/
def rightSide? (rest : Text) : Option Text :=
  let behind :=
    if rest.head? = some '<' then
      (Text.closing? rest).map fun close => Text.stripStart (rest.drop (close + 1))
    else some rest
  behind.bind fun text =>
    match text with
    -- two equals signs compare, so that `type` is a name there
    | '=' :: value => if value.head? = some '=' then none else some (rightSideFrom 0 true none value)
    | _ => none

/-- The facts of the shapes in the right side of an alias, and the right side with the shapes
hidden. -/
def shapes (owner : String) (text : Text) : List Fact × Text :=
  match text with
  | [] => ([], [])
  | c :: rest =>
    if c = '\x7b' then
      match Text.closing? (c :: rest) with
      | some close =>
        let (later, outside) := shapes owner (rest.drop close)
        (memberFacts owner true (rest.take (close - 1)) ++ later,
          Text.hide ((c :: rest).take (close + 1)) ++ outside)
      -- nothing is read behind a shape that is not closed
      | none => ([.openShape owner], c :: rest)
    else
      let (later, outside) := shapes owner rest
      (later, c :: outside)
termination_by text.length
decreasing_by
  · simp only [List.length_drop, List.length_cons]
    omega
  · simp

/-- The facts of an alias: none unless its right side holds a shape. -/
def aliasFacts (header : Header) : List Fact :=
  match rightSide? header.rest with
  | some value =>
    if value.contains '\x7b' then
      let owner := String.ofList header.name
      let (members, outside) := shapes owner value
      .declares owner .interface "type alias" none :: members ++
        (outside.splitTop fun c => c == '&' || c == '|').flatMap (usesOf owner)
    else []
  | none => []

/-! ### Declarations -/

/-- The kind that a keyword declares. -/
def kindOf (keyword : String) : Kind :=
  match keyword with
  | "interface" => .interface
  | "enum" => .enum
  | _ => .cls

/-- The facts of type parameters: their bounds are used. -/
def typeParameterFacts (owner : String) (params : Text) : List Fact :=
  params.splitTop.flatMap fun param =>
    let mark := " extends ".toList
    match Text.indexOf? mark param with
    | some place => usesOf owner (Text.beforeAssignment (param.drop (place + mark.length)))
    | none => []

/-- The facts of what stands between the name of a type and its body: bases and interfaces. -/
def headerFacts (owner : String) (header : Text) : List Fact :=
  let header := header.collapse
  let (bases, interfaces) :=
    match Text.wordPlace? "implements" header with
    | some place => (header.take place, header.drop (place + "implements".length))
    | none => (header, [])
  let mark := "extends ".toList
  -- what stands before the interfaces is a base list only behind its word
  let bases := if mark.isPrefixOf (Text.strip bases) then (Text.strip bases).drop mark.length else []
  (Text.splitTop bases).flatMap (fun entry =>
      let (name, arguments) := Text.baseAndArguments (entry.upTo '(').collapse
      .inherits owner (String.ofList name) :: usesOf owner arguments) ++
    (Text.splitTop interfaces).flatMap (fun entry =>
      let (name, arguments) := Text.baseAndArguments entry.collapse
      .realizes owner (String.ofList name) :: usesOf owner arguments)

/-- Splits off the type parameters behind a name; unclosed ones are left alone. -/
def splitTypeParameters (rest : Text) : Text × Text :=
  let lead := rest.stripStart
  if lead.head? = some '<' then
    match Text.closing? lead with
    | some close => ((lead.take close).drop 1, lead.drop (close + 1))
    | none => ([], rest)
  else ([], rest)

theorem length_splitTypeParameters_le (rest : Text) :
    (splitTypeParameters rest).2.length ≤ rest.length := by
  have := Text.length_stripStart_le rest
  simp only [splitTypeParameters]
  split
  · split
    · simp only [List.length_drop]
      omega
    · exact Nat.le_refl _
  · exact Nat.le_refl _

/-- The facts of a body. -/
def bodyFacts (keyword owner : String) (body : Text) : List Fact :=
  if keyword = "enum" then enumFacts owner body
  else memberFacts owner (keyword = "interface") body

/-- The facts of the declarations in a masked text. -/
def declarationFacts (text : Text) : List Fact :=
  match h : headerRule.next? text with
  | none => []
  | some header =>
    let owner := String.ofList header.name
    let params := (splitTypeParameters header.rest).1
    let behind := (splitTypeParameters header.rest).2
    let start := behind.bodyStart? 0 true
    let bases := match start with
      | some place => behind.take place
      | none => []
    let declaration := .declares owner (kindOf header.keyword) header.keyword none ::
      typeParameterFacts owner params ++ headerFacts owner bases
    match start with
    -- without a body, or with one that is not closed, reading goes on behind the name
    | none => declaration ++ declarationFacts header.rest
    | some place =>
      match behind.closingAt? place with
      | none => declaration ++ .openBody owner :: declarationFacts header.rest
      | some close =>
        declaration ++ bodyFacts header.keyword owner ((behind.take close).drop (place + 1)) ++
          declarationFacts (behind.drop (close + 1))
termination_by text.length
decreasing_by
  all_goals have := HeaderRule.length_rest_lt_of_next? h
  · omega
  · omega
  · have := length_splitTypeParameters_le header.rest
    simp only [List.length_drop]
    omega

/-- The facts of a source. -/
def facts (source : Text) : List Fact :=
  let text := content source
  (aliasRule.all text).flatMap aliasFacts ++ declarationFacts text

end TypeScript

end ClassDiagram
