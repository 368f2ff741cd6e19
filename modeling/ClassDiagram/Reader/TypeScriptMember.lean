import ClassDiagram.Finding.Basic
import ClassDiagram.Text.Word

/-!
# Members of TypeScript types

The members of a body stand in units: lines, and the parts of a line between semicolons; in a
shape a comma divides as well. Without decorators and modifiers, a unit is a constructor, an
accessor, a method or a field.
-/

namespace ClassDiagram

namespace TypeScript

/-- The words that modify a member. -/
def modifiers : List String := [
  "public", "private", "protected", "static", "abstract", "override", "readonly", "async",
  "declare", "export", "default", "accessor"]

/-- The words that make a constructor parameter a field. -/
def propertyModifiers : List String := ["public", "private", "protected", "readonly", "override"]

/-- Drops some words at the front, each with the blanks behind it. -/
def dropLeading (words : List String) (text : Text) : Text :=
  if words.contains (String.ofList (Text.spanWord text).1) then
    match h : Text.afterBlanks? (Text.spanWord text).2 with
    | some rest => dropLeading words rest
    | none => text
  else text
termination_by text.length
decreasing_by
  exact Nat.lt_of_lt_of_le (Text.length_lt_of_afterBlanks? h) (Text.length_spanWord_le text)

/-- What stands behind the further segments of a dotted name. -/
def afterSegments (text : Text) : Text :=
  match text with
  | '.' :: rest =>
    match h : Text.dollarName? rest with
    | some (_, behind) => afterSegments behind
    | none => '.' :: rest
  | _ => text
termination_by text.length
decreasing_by
  have := Text.length_lt_of_nameBy? h
  simp only [List.length_cons]
  omega

theorem length_afterSegments_le (text : Text) : (afterSegments text).length ≤ text.length := by
  fun_induction afterSegments text with
  | case1 rest name behind h ih =>
    have := Text.length_lt_of_nameBy? h
    simp only [List.length_cons]
    omega
  | case2 => simp
  | case3 => simp

/-- What follows the arguments at the front of a text: nothing if they are unclosed, and the text
itself if there are none. -/
def afterArguments (text : Text) : Text :=
  if text.head? = some '(' then
    match Text.closing? text with
    | some close => text.drop (close + 1)
    | none => []
  else text

theorem length_afterArguments_le (text : Text) : (afterArguments text).length ≤ text.length := by
  unfold afterArguments
  split
  · split
    · simp
    · simp
  · exact Nat.le_refl _

/-- Drops the decorators at the front. -/
def dropDecorators (text : Text) : Text :=
  match h : text.strip with
  | '@' :: rest =>
    match hname : Text.dollarName? rest with
    | some (_, behind) => dropDecorators (afterArguments (afterSegments behind).stripStart)
    | none => '@' :: rest
  | stripped => stripped
termination_by text.length
decreasing_by
  have h1 := Text.length_strip_le text
  rw [h, List.length_cons] at h1
  have h2 := Text.length_lt_of_nameBy? hname
  have h3 := length_afterSegments_le behind
  have h4 := Text.length_stripStart_le (afterSegments behind)
  have h5 := length_afterArguments_le (afterSegments behind).stripStart
  omega

/-! ### Parameters -/

/-- A parameter: its name, its type, and whether it is a field as well. -/
structure Parameter where
  name : Text
  type : Text
  isProperty : Bool
  deriving DecidableEq, Repr

/-- A text, or the word `any` in place of an empty one. -/
def orAny (type : Text) : Text := if type.isEmpty then "any".toList else type

/-- A text, or the word `void` in place of an empty one. -/
def orVoid (type : Text) : Text := if type.isEmpty then "void".toList else type

/-- Drops question marks and the blanks around them off the end of a name. -/
def plainName (name : Text) : Text :=
  Text.strip ((name.strip.reverse.dropWhile (· == '?')).reverse)

/-- The parameter in one entry of a parameter list; `this` is none. -/
def parameter? (entry : Text) : Option Parameter :=
  let param := dropDecorators entry
  let param := if param.take 3 = ['.', '.', '.'] then param.drop 3 else param
  let declaration := dropLeading propertyModifiers param
  -- a modifier is dropped from a parameter that is a field as well
  let isProperty := declaration != param
  let declaration := declaration.beforeAssignment
  let (name, type) :=
    match Text.topLevel? [':'] declaration with
    | some colon => (declaration.take colon, Text.collapse (declaration.drop (colon + 1)))
    | none => (declaration, "any".toList)
  let name := plainName name
  if name = "this".toList then none else some ⟨name, orAny type, isProperty⟩

/-- The parameters in a parameter list. -/
def parameters (params : Text) : List Parameter := params.splitTop.filterMap parameter?

/-- The types in a parameter list; a parameter without one has the type `any`. -/
def parameterTypes (params : Text) : List Text := (parameters params).map Parameter.type

/-! ### Parts of a member -/

/-- The annotation behind a parameter list, up to the body; empty without one. -/
def returnType (tail : Text) : Text :=
  match tail.strip with
  | ':' :: rest =>
    let written := Text.strip rest
    -- a brace right behind the colon opens an object type and not the body
    if written.head? = some '\x7b' then
      match Text.closing? written with
      | some close => written.take (close + 1)
      | none => written
    else
      match Text.topLevel? ['\x7b'] written with
      | some brace => Text.collapse (written.take brace)
      | none => written.collapse
  | _ => []

/-- Splits off a member name, which may be marked as private. -/
def memberName? : Text → Option (Text × Text)
  | '#' :: rest => (Text.dollarName? rest).map fun (name, behind) => ('#' :: name, behind)
  | text => Text.dollarName? text

/-- An accessor: whether it reads, its name, and the text from its parenthesis on. -/
def accessor? (text : Text) : Option (Bool × Text × Text) :=
  let (word, behind) := Text.spanWord text
  let word := String.ofList word
  if word = "get" ∨ word = "set" then
    match (Text.afterBlanks? behind).bind memberName? with
    | some (name, rest) =>
      let rest := rest.stripStart
      if rest.head? = some '(' then some (word = "get", name, rest) else none
    | none => none
  else none

/-- Drops one of some signs at the front, with the blanks around it. -/
def dropSign (signs : List Char) (text : Text) : Text :=
  match text.stripStart with
  | c :: rest => if signs.contains c then Text.stripStart rest else c :: rest
  | [] => []

/-- The head of a method: its name and the text from its type parameters or parenthesis on. -/
def methodHead? (text : Text) : Option (Text × Text) :=
  match memberName? text with
  | some (name, rest) =>
    let rest := dropSign ['?'] rest
    if rest.head? = some '<' ∨ rest.head? = some '(' then some (name, rest) else none
  | none => none

/-- A field: its name, and the text from its colon or equals sign on, which may be missing. -/
def fieldHead? (text : Text) : Option (Text × Text) :=
  match memberName? text with
  | some (name, rest) =>
    let rest := dropSign ['?', '!'] rest
    if rest.isEmpty ∨ rest.head? = some ':' ∨ rest.head? = some '=' then some (name, rest)
    else none
  | none => none

/-- Parameter types and return type of a function value. -/
def arrowFunction? (value : Text) : Option (List Text × Text) :=
  let value := if value.take 6 = "async ".toList then Text.stripStart (value.drop 6) else value
  let value :=
    if value.head? = some '<' then
      match Text.closing? value with
      | some close => Text.stripStart (value.drop (close + 1))
      | none => []
    else value
  if value.head? = some '(' then
    match Text.closing? value with
    | some close =>
      let tail := value.drop (close + 1)
      -- parentheses without an arrow behind them are a value like any other
      match Text.indexOf? ['=', '>'] tail with
      | some arrow =>
        let result :=
          match Text.strip (tail.take arrow) with
          | ':' :: written => Text.collapse written
          | _ => []
        some (parameterTypes ((value.take close).drop 1), orVoid result)
      | none => none
    | none => none
  else none

/-! ### Facts -/

/-- The facts that a type expression is used. -/
def usesOf (owner : String) (expr : Text) : List Fact := Fact.usesOf .typeScript owner expr

/-- The facts of a field. -/
def fieldFacts (owner : String) (name type : Text) : List Fact :=
  Fact.ofField .typeScript owner name type

/-- The facts of a method. -/
def methodFacts (owner : String) (name result : Text) (params : List Text) : List Fact :=
  Fact.ofMethod .typeScript owner name result params

/-- The facts of a constructor, given the text from its parenthesis on: a method called like its
owner, and a field for each parameter that is one. -/
def constructorFacts (owner : String) (text : Text) : List Fact :=
  let params := parameters (Text.splitGroup text).1
  params.flatMap (fun param =>
      usesOf owner param.type ++
        if param.isProperty then
          [.parameterProperty owner (String.ofList param.name) (String.ofList param.type)]
        else []) ++
    methodFacts owner owner.toList "void".toList (params.map Parameter.type)

/-- The facts of an accessor, given the text from its parenthesis on: a field of the type that is
returned, or of the first parameter. -/
def accessorFacts (owner : String) (reads : Bool) (name text : Text) : List Fact :=
  match Text.closing? text with
  | some close =>
    let type :=
      if reads then returnType (text.drop (close + 1))
      else ((parameterTypes ((text.take close).drop 1)).head?).getD []
    fieldFacts owner name (orAny type)
  | none => []

/-- The facts of a method, given the text from its type parameters or parenthesis on. -/
def callableFacts (owner : String) (name text : Text) : List Fact :=
  let text :=
    if text.head? = some '<' then
      match Text.closing? text with
      | some close => Text.stripStart (text.drop (close + 1))
      | none => []
    else text
  if text.head? = some '(' then
    match Text.closing? text with
    | some close =>
      methodFacts owner name (orVoid (returnType (text.drop (close + 1))))
        (parameterTypes ((text.take close).drop 1))
    | none => []
  else []

/-- The facts of a field, given the text from its colon or equals sign on. Without an annotation
only a function value counts, which is a method. -/
def valueFacts (owner : String) (name rest : Text) : List Fact :=
  match rest.strip with
  | ':' :: written =>
    let type := Text.collapse (Text.beforeAssignment written)
    if type.isEmpty then [] else fieldFacts owner name type
  | '=' :: value =>
    match arrowFunction? (Text.strip value) with
    | some (params, result) => methodFacts owner name result params
    | none => []
  | _ => []

/-- What stands behind the word that announces a constructor, from its parenthesis on. -/
def constructor? (text : Text) : Option Text :=
  let word := "constructor".toList
  if word.isPrefixOf text then
    let rest := Text.stripStart (text.drop word.length)
    if rest.head? = some '(' then some rest else none
  else none

/-- Whether a unit is no member that is shown: an index signature, a call signature or a rest. -/
def isPassedOver (text : Text) : Bool :=
  match text with
  | [] => true
  | c :: _ => c == '[' || c == '(' || c == '\x7d' || c == '\x7b' || c == '<'

/-- The facts of one unit of a body. -/
def unitFacts (owner : String) (unit : Text) : List Fact :=
  let text := dropLeading modifiers (dropDecorators unit.collapse)
  if isPassedOver text then []
  else
    match constructor? text, accessor? text, methodHead? text with
    | some rest, _, _ => constructorFacts owner rest
    | none, some (reads, name, rest), _ => accessorFacts owner reads name rest
    | none, none, some (name, rest) =>
      -- a construct signature is no method
      if name = "new".toList then [] else callableFacts owner name rest
    | none, none, none =>
      match fieldHead? text with
      | some (name, rest) => valueFacts owner name rest
      | none => []

/-- The units of a body: lines and their parts between semicolons, in a shape also between
commas. -/
def memberUnits (shape : Bool) (body : Text) : List Text :=
  body.units.flatMap fun line =>
    (line.splitTop (· == ';') false).flatMap fun statement =>
      -- in an interface or an alias commas part the members too
      if shape then statement.splitTop else [statement]

/-- The facts of the members in a body. -/
def memberFacts (owner : String) (shape : Bool) (body : Text) : List Fact :=
  (memberUnits shape body).flatMap (unitFacts owner)

/-- The facts of the members of an enumeration. -/
def enumFacts (owner : String) (body : Text) : List Fact :=
  body.splitTop.flatMap fun entry =>
    let item := (entry.upTo '=').strip
    if item.isDollarName then
      [.enumMember owner (String.ofList item) (String.ofList item)]
    else []

end TypeScript

end ClassDiagram
