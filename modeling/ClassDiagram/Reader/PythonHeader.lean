import ClassDiagram.Finding.Basic
import ClassDiagram.Text.Word

/-!
# Class and function headers of Python

The header of a class or function is a keyword, a name, arguments in parentheses and a colon; a
body may follow on the same line.

* Bases that mark an enumeration or an abstract type decide the kind of a class, and so does an
  abstract metaclass.
* `length_inline_le`: what follows the colon is no longer than what follows the name.
-/

namespace ClassDiagram

namespace Python

/-- The bases that make a class an enumeration. -/
def enumMarkers : List String := ["Enum", "IntEnum", "StrEnum", "Flag", "IntFlag"]

/-- The bases that make a class an interface. -/
def abstractMarkers : List String := ["ABC", "Protocol"]

/-- The bases that say nothing. -/
def ignoredBases : List String := ["object", "Generic"]

/-- What stands behind a keyword and the blanks that follow it. -/
def afterKeyword? (keyword : String) (line : Text) : Option Text :=
  let (word, behind) := Text.spanWord line
  if String.ofList word = keyword then Text.afterBlanks? behind else none

/-- The name of a class header, and what follows it. -/
def classHeader? (line : Text) : Option (Text × Text) := (afterKeyword? "class" line).bind Text.name?

/-- The name of a function header, and what follows it. -/
def functionHeader? (line : Text) : Option (Text × Text) :=
  -- `async` may stand before `def`
  let plain := (afterKeyword? "async" line).getD line
  (afterKeyword? "def" plain).bind Text.name?

/-- The place of the colon that ends a header. -/
def headerEnd? (depth : Nat) : Text → Option Nat
  | [] => none
  | c :: rest =>
    if depth = 0 ∧ c = ':' then some 0
    else (headerEnd? ((⟨true, false⟩ : Brackets).depthAfter depth false c) rest).map (· + 1)

/-- The parts of a header behind its name: the arguments, what stands between them and the colon,
and the body on the same line. -/
structure HeaderParts where
  arguments : Text
  result : Text
  inline : Text

/-- Drops the type parameters behind a name; unclosed ones take all. -/
def dropTypeParameters (rest : Text) : Text :=
  if rest.head? = some '[' then
    match Text.closing? rest with
    | some close => Text.strip (rest.drop (close + 1))
    | none => []
  else rest

/-- Splits off the arguments in parentheses; unclosed ones take all. -/
def splitArguments (rest : Text) : Text × Text :=
  if rest.head? = some '(' then
    let (arguments, behind) := Text.splitGroup rest
    (arguments, behind.getD [])
  else ([], rest)

/-- The parts of a header, given what follows its name. -/
def headerParts (rest : Text) : HeaderParts :=
  let (arguments, behind) := splitArguments (dropTypeParameters rest.strip)
  match headerEnd? 0 behind with
  | some colon => ⟨arguments, behind.take colon, Text.strip (behind.drop (colon + 1))⟩
  | none => ⟨arguments, behind, []⟩

/-! ### Lengths -/

theorem length_lt_of_afterKeyword? {keyword : String} {line rest : Text}
    (h : afterKeyword? keyword line = some rest) : rest.length < line.length := by
  simp only [afterKeyword?] at h
  split at h
  · exact Nat.lt_of_lt_of_le (Text.length_lt_of_afterBlanks? h) (Text.length_spanWord_le line)
  · simp at h

theorem length_lt_of_classHeader? {line name rest : Text}
    (h : classHeader? line = some (name, rest)) : rest.length < line.length := by
  obtain ⟨behind, hbehind, hname⟩ := Option.bind_eq_some_iff.1 h
  have := length_lt_of_afterKeyword? hbehind
  have := Text.length_lt_of_nameBy? hname
  omega

theorem length_lt_of_functionHeader? {line name rest : Text}
    (h : functionHeader? line = some (name, rest)) : rest.length < line.length := by
  obtain ⟨behind, hbehind, hname⟩ := Option.bind_eq_some_iff.1 h
  have h1 := length_lt_of_afterKeyword? hbehind
  have h2 := Text.length_lt_of_nameBy? hname
  have h3 : ((afterKeyword? "async" line).getD line).length ≤ line.length := by
    cases hasync : afterKeyword? "async" line with
    | none => simp
    | some plain =>
      have := length_lt_of_afterKeyword? hasync
      simp only [Option.getD_some]
      omega
  omega

theorem length_dropTypeParameters_le (rest : Text) :
    (dropTypeParameters rest).length ≤ rest.length := by
  unfold dropTypeParameters
  split
  · split
    · exact Nat.le_trans (Text.length_strip_le _) (by simp)
    · simp
  · exact Nat.le_refl _

theorem length_splitArguments_le (rest : Text) :
    (splitArguments rest).2.length ≤ rest.length := by
  unfold splitArguments Text.splitGroup
  split
  · cases Text.closing? rest <;> simp
  · exact Nat.le_refl _

theorem length_inline_le (rest : Text) : (headerParts rest).inline.length ≤ rest.length := by
  have h1 := Text.length_strip_le rest
  have h2 := length_dropTypeParameters_le rest.strip
  have h3 := length_splitArguments_le (dropTypeParameters rest.strip)
  simp only [headerParts]
  split
  · rename_i colon _
    refine Nat.le_trans (Text.length_strip_le _) ?_
    simp only [List.length_drop]
    omega
  · simp

/-! ### Classes -/

/-- What the arguments of a class say so far: its kind, and its bases with their subscripts. -/
structure ClassShape where
  kind : Kind := .cls
  bases : List (Text × Text) := []

/-- What stands before the last `mark`, or the whole text without one. -/
def beforeLast (mark : Char) (text : Text) : Text :=
  if text.contains mark then ((text.reverse.dropWhile (· != mark)).drop 1).reverse else text

/-- The shape of a class with one more argument. -/
def ClassShape.add (shape : ClassShape) (argument : Text) : ClassShape :=
  match Text.topLevel? ['='] argument with
  | some assign =>
    let key := Text.strip (argument.take assign)
    let value := Text.strip (argument.drop (assign + 1))
    if key = "metaclass".toList ∧ value.simpleName = "ABCMeta".toList then
      { shape with kind := .interface }
    else shape
  | none =>
    let base := (argument.upTo '[').strip.simpleName
    let name := String.ofList base
    if enumMarkers.contains name then { shape with kind := .enum }
    else if abstractMarkers.contains name then
      -- an enumeration stays one, whatever else it derives from
      if shape.kind = .enum then shape else { shape with kind := .interface }
    else if !ignoredBases.contains name && base.isName then
      { shape with bases := shape.bases ++ [(base, beforeLast ']' (argument.past '['))] }
    else shape

/-- The shape that the arguments of a class give it. -/
def classShape (arguments : Text) : ClassShape :=
  (arguments.splitTop (· == ',') false).foldl ClassShape.add {}

/-- The facts that a type expression is used. -/
def usesOf (owner : String) (expr : Text) : List Fact := Fact.usesOf .python owner expr

/-- The facts of a class header. -/
def classFacts (owner : String) (arguments : Text) : List Fact :=
  let shape := classShape arguments
  .declares owner shape.kind shape.kind.word none ::
    shape.bases.flatMap fun (base, subscript) =>
      .inherits owner (String.ofList base) :: usesOf owner subscript

/-! ### Functions -/

/-- The parameter in one entry of a parameter list: its name and its type. The receiver and the
separators are none. -/
def parameter? (entry : Text) : Option (Text × Text) :=
  if entry = ['*'] ∨ entry = ['/'] then none
  else
    let declaration := entry.beforeAssignment
    let (name, type) :=
      match Text.topLevel? [':'] declaration with
      | some colon => (declaration.take colon, Text.collapse (declaration.drop (colon + 1)))
      | none => (declaration, [])
    -- stars gather further arguments and are no part of the name
    let name := (Text.strip name).dropWhile (· == '*')
    if name = "self".toList ∨ name = "cls".toList then none
    else some (name, if type.isEmpty then "any".toList else type)

/-- The parameters in a parameter list. -/
def parameters (params : Text) : List (Text × Text) :=
  (params.splitTop (· == ',') false).filterMap parameter?

/-- The facts of a method header. The constructor shows no method of its own. -/
def methodFacts (owner : String) (name : Text) (params : List (Text × Text)) (result : Text) :
    List Fact :=
  let types := params.map Prod.snd
  let typeFacts := types.flatMap (usesOf owner)
  if name = "__init__".toList then typeFacts
  else
    let returned :=
      match result.strip with
      | '-' :: '>' :: type => Text.strip type
      | _ => []
    let shown := if returned.isEmpty then "void".toList else returned
    .method owner ⟨String.ofList name, String.ofList shown, types.map String.ofList⟩ ::
      typeFacts ++ usesOf owner returned

end Python

end ClassDiagram
