import ClassDiagram.Finding.Basic
import ClassDiagram.Reader.CSharpHeader

/-!
# Members of C# types

How a single statement of a type body is read: attributes and modifiers are dropped, and the first
of parenthesis, brace, arrow and assignment outside of all nesting tells a method from a property
and a field.
-/

namespace ClassDiagram

namespace CSharp

/-- Drops the attribute groups at the front; an unclosed one takes all. -/
def dropAttributes (text : Text) : Text :=
  match h : text.strip with
  | '[' :: rest =>
    match Text.closing? ('[' :: rest) with
    | some close => dropAttributes (rest.drop close)
    | none => []
  | stripped => stripped
termination_by text.length
decreasing_by
  have := Text.length_strip_le text
  rw [h, List.length_cons] at this
  simp only [List.length_drop]
  omega

/-- Drops the modifiers at the front; a modifier with nothing behind it stays. -/
def dropModifiers (text : Text) : Text :=
  if modifiers.contains (String.ofList (text.upTo ' ')) ∧ text.past ' ' ≠ [] then
    dropModifiers (text.past ' ')
  else text
termination_by text.length
decreasing_by
  rename_i h
  have hdrop := (List.dropWhile_sublist (· != ' ') (l := text)).length_le
  have := List.length_pos_iff.2 h.2
  simp only [Text.past, List.length_drop] at this ⊢
  omega

/-- A member name: at most one at sign, then a name that may be qualified by dots. -/
def isMemberName (text : Text) : Bool :=
  match text with
  | '@' :: c :: rest => Text.isNameStart c && rest.all (fun c => Text.isWordChar c || c == '.')
  | c :: rest => Text.isNameStart c && rest.all (fun c => Text.isWordChar c || c == '.')
  | [] => false

/-- A member name without qualifiers. -/
def isPlainMemberName (text : Text) : Bool := isMemberName text && !text.contains '.'

/-- A name without its at sign. -/
def unmark (name : Text) : Text := name.dropWhile (· == '@')

/-- What stands, in reverse, before the angle bracket that opens the group which the reversed text
ends. -/
def beforeAngles? (depth : Nat) : Text → Option Text
  | [] => none
  | '>' :: rest => beforeAngles? (depth + 1) rest
  | '<' :: rest => if depth ≤ 1 then some rest else beforeAngles? (depth - 1) rest
  | _ :: rest => beforeAngles? depth rest

/-- Drops the type parameters behind a member name, provided a type and a name are left. -/
def dropTypeParameters (head : Text) : Text :=
  if head.getLast? = some '>' then
    match beforeAngles? 0 head.reverse with
    | some before =>
      -- a generic type without a name behind it is no method and keeps its arguments
      let candidate := Text.stripEnd before.reverse
      if candidate.contains ' ' && candidate.getLast?.any Text.isWordChar then candidate else head
    | none => head
  else head

/-- Type and name of a member, read off what stands before its parameters, body or value. -/
def typeAndName? (head : Text) : Option (Text × Text) :=
  let parts := (dropTypeParameters head.collapse).splitTop (· == ' ')
  let parts := parts.filter fun part => !modifiers.contains (String.ofList part)
  match parts.getLast? with
  | none => none
  | some name =>
    let type := Text.join [' '] parts.dropLast
    -- a rest of another statement is told by a semicolon or an equals sign in the type
    if parts.length < 2 || !isMemberName name || type.contains ';' || type.contains '=' then none
    else some (type, (unmark name).simpleName)

/-- The types in a parameter list. -/
def parameterTypes (params : Text) : List Text :=
  params.splitTop.filterMap fun param =>
    let tokens := (dropAttributes param).beforeAssignment.splitTop (· == ' ')
    let tokens := tokens.filter fun token => !parameterModifiers.contains (String.ofList token)
    match tokens with
    | [] => none
    | [only] => some only
    | _ => some (Text.join [' '] tokens.dropLast)

/-! ### Facts -/

/-- The facts that a type expression is used. -/
def usesOf (owner : String) (expr : Text) : List Fact := Fact.usesOf .cSharp owner expr

/-- The facts of a field. -/
def fieldFacts (owner : String) (name type : Text) : List Fact :=
  Fact.ofField .cSharp owner name type

/-- The facts of a field, if what stands before its value has a type and a name. -/
def headFacts (owner : String) (head : Text) : List Fact :=
  match typeAndName? head with
  | some (type, name) => fieldFacts owner name type
  | none => []

/-- The facts of a method. -/
def methodFacts (owner : String) (name result : Text) (params : List Text) : List Fact :=
  Fact.ofMethod .cSharp owner name result params

/-- The facts of a statement with a parameter list at `paren`: a method, or a constructor, which
is called like its owner and has no type of its own. -/
def callableFacts (owner : String) (text : Text) (paren : Nat) : List Fact :=
  let head := Text.strip (text.take paren)
  let params := parameterTypes (Text.splitGroup (text.drop paren)).1
  match typeAndName? head with
  | some (type, name) =>
    let result := if String.ofList name = owner then "void".toList else type
    methodFacts owner name result params
  -- a constructor has no type before its name
  | none => if String.ofList head = owner then methodFacts owner head "void".toList params else []

/-- The facts of a declarator list: one type and several names. -/
def declaratorFacts (owner : String) (text : Text) : List Fact :=
  match text.splitTop with
  | [] => []
  | first :: others =>
    match typeAndName? first.beforeAssignment with
    | none => []
    | some (type, name) =>
      fieldFacts owner name type ++ others.flatMap fun other =>
        let extra := (other.upTo '=').strip
        if isPlainMemberName extra then fieldFacts owner (unmark extra) type else []

/-- Whether `place` was found and comes before all other places found. -/
def comesFirst (place : Option Nat) (others : List (Option Nat)) : Bool :=
  match place with
  | none => false
  | some here => others.all fun other => other.all (here < ·)

/-- Whether a statement declares no member: it is empty, a rest of a body, a destructor, a
directive, a nested type or an operator. -/
def isPassedOver (text : Text) : Bool :=
  match text with
  | [] => true
  | c :: _ =>
    c == '=' || c == '\x7d' || c == '\x7b' || c == '~' ||
      ["delegate", "using", "namespace", "return"].contains (String.ofList (text.upTo ' ')) ||
      (header? text).isSome || Text.includes (' ' :: text ++ [' ']) " operator ".toList

/-- The facts of one statement of a type body. -/
def statementFacts (owner : String) (statement : Text) : List Fact :=
  let text := dropModifiers (dropAttributes statement).collapse
  -- a tuple type at the front is no parameter list, so the search starts behind it
  let lead := if text.head? = some '(' then (Text.closing? text).map (· + 1) else some 0
  match isPassedOver text, lead with
  | true, _ => []
  | _, none => []
  | false, some lead =>
    let paren := Text.topLevel? ['('] text lead
    let assign := Text.topLevel? ['='] text lead
    let arrow := Text.topLevel? ['=', '>'] text lead
    let brace := Text.topLevel? ['\x7b'] text lead
    if comesFirst paren [assign, arrow, brace] then callableFacts owner text (paren.getD 0)
    else if comesFirst brace [assign, arrow] then headFacts owner (text.take (brace.getD 0))
    else if comesFirst arrow [assign] then headFacts owner (text.take (arrow.getD 0))
    else declaratorFacts owner text

end CSharp

end ClassDiagram
