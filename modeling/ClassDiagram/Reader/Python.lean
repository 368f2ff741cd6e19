import ClassDiagram.Reader.PythonHeader
import ClassDiagram.Reader.PythonLine

/-!
# Reading Python

Scope follows indentation. A stack of open scopes is kept while the logical lines are read: a line
closes every scope whose header is indented at least as far, a class header opens a class body, and
a function header opens a method directly in a class body and a plain function elsewhere.

* Fields come from annotated names directly in a class body, and from assignments to the receiver
  directly in a constructor.
* A decorator line neither closes a scope nor says anything.
-/

namespace ClassDiagram

namespace Python

/-- What a scope is. -/
inductive Scope where
  /-- The body of a class. -/
  | body (owner : String)
  /-- A method of a class, with the names and types of its parameters. -/
  | method (owner : String) (name : Text) (params : List (Text × Text))
  /-- Any other function. -/
  | function
  deriving DecidableEq, Repr

/-- An open scope, with the indentation of its header. -/
structure OpenScope where
  indent : Nat
  scope : Scope
  deriving DecidableEq, Repr

/-- The words that cannot name a field. -/
def keywords : List String := [
  "False", "None", "True", "and", "as", "assert", "async", "await", "break", "class",
  "continue", "def", "del", "elif", "else", "except", "finally", "for", "from", "global",
  "if", "import", "in", "is", "lambda", "nonlocal", "not", "or", "pass", "raise", "return",
  "try", "while", "with", "yield"]

/-- Closes the scopes, innermost first, whose headers are indented at least as far as a line. -/
def closeScopes (indent : Nat) (scopes : List OpenScope) : List OpenScope :=
  scopes.dropWhile fun scope => indent ≤ scope.indent

/-- The facts of a field. -/
def fieldFacts (owner : String) (name type : Text) : List Fact :=
  Fact.ofField .python owner name type

/-- The type behind a colon, if any. -/
def typeBehind? (rest : Text) : Option Text :=
  match rest.stripStart with
  | ':' :: type => if (Text.stripStart type).isEmpty then none else some (Text.stripStart type)
  | _ => none

/-- A name with its type. -/
def annotated? (target : Text) : Option (Text × Text) :=
  (Text.name? target).bind fun (name, rest) => (typeBehind? rest).map fun type => (name, type)

/-- The facts of a statement directly in a class body: a field if a name has a type, a member of
an enumeration if a name only has a value. -/
def bodyStatementFacts (owner : String) (line : Text) : List Fact :=
  let assign := Text.topLevel? ['='] line
  let target := line.beforeAssignment.strip
  -- `else: x` looks like a name with a type, but starts with a keyword
  let field := (annotated? target).filter fun (name, _) => !keywords.contains (String.ofList name)
  match field with
  | some (name, type) => fieldFacts owner name type.collapse
  | none =>
    if assign.isSome && target.isName && target.head? != some '_' then
      [.enumValue owner (String.ofList target)]
    else []

/-- The attribute of the receiver that a target names, with its type if it has one. -/
def receiverTarget? (target : Text) : Option (Text × Option Text) :=
  if "self.".toList.isPrefixOf target then
    (Text.name? (target.drop 5)).bind fun (name, rest) =>
      if rest.stripStart.isEmpty then some (name, none)
      else (typeBehind? rest).map fun type => (name, some type)
  else none

/-- The facts of a statement directly in a constructor: a field if the receiver gets an attribute,
of the type written there or of the parameter assigned. -/
def constructorStatementFacts (owner : String) (params : List (Text × Text)) (line : Text) :
    List Fact :=
  match receiverTarget? line.beforeAssignment.strip with
  | some (name, type) =>
    let value :=
      match Text.topLevel? ['='] line with
      | some assign => Text.strip (line.drop (assign + 1))
      | none => []
    -- of parameters of one name the last one counts
    let assigned := (params.reverse.find? fun (param, _) => param == value).map Prod.snd
    let type := (type.map Text.collapse).or assigned
    fieldFacts owner name (type.getD "any".toList)
  | none => []

/-- The facts of a statement, given the scopes that are open. -/
def statementFacts (scopes : List OpenScope) (line : Text) : List Fact :=
  match scopes.head?.map OpenScope.scope with
  | some (.body owner) => bodyStatementFacts owner line
  | some (.method owner name params) =>
    if name = "__init__".toList then constructorStatementFacts owner params line else []
  | _ => []

/-- The scope that a function header opens, and its facts. -/
def openFunction (scopes : List OpenScope) (name : Text) (parts : HeaderParts) :
    Scope × List Fact :=
  match scopes.head?.map OpenScope.scope with
  | some (.body owner) =>
    let params := parameters parts.arguments
    (.method owner name params, methodFacts owner name params parts.result)
  | _ => (.function, [])

/-- Reads a line with the scopes that are open: the scopes open behind it, and its facts. What
follows a header on its line is read in the new scope; of a plain function it is passed over. -/
def readLine (indent : Nat) (scopes : List OpenScope) (line : Text) :
    List OpenScope × List Fact :=
  match hclass : classHeader? line with
  | some (name, rest) =>
    let owner := String.ofList name
    let parts := headerParts rest
    (parts.inline.splitTop (· == ';') false).attach.foldl
      (fun (scopes, facts) ⟨statement, h⟩ =>
        have : statement.length < line.length :=
          Nat.lt_of_le_of_lt (Nat.le_trans (Text.length_le_of_mem_splitTop h)
            (length_inline_le rest)) (length_lt_of_classHeader? hclass)
        let (next, more) := readLine indent scopes statement
        (next, facts ++ more))
      (⟨indent, .body owner⟩ :: scopes, classFacts owner parts.arguments)
  | none =>
    match hfunction : functionHeader? line with
    | some (name, rest) =>
      let parts := headerParts rest
      let (scope, facts) := openFunction scopes name parts
      -- what a plain function does on its line says nothing of a class
      let inline : Text := if scope = .function then [] else parts.inline
      (inline.splitTop (· == ';') false).attach.foldl
        (fun (scopes, facts) ⟨statement, h⟩ =>
          have : statement.length < line.length := by
            refine Nat.lt_of_le_of_lt (Nat.le_trans (Text.length_le_of_mem_splitTop h) ?_)
              (length_lt_of_functionHeader? hfunction)
            simp only [inline]
            split
            · simp
            · exact length_inline_le rest
          let (next, more) := readLine indent scopes statement
          (next, facts ++ more))
        (⟨indent, scope⟩ :: scopes, facts)
    | none => (scopes, statementFacts scopes line)
termination_by line.length

/-- The facts of logical lines, given the scopes that are open. -/
def factsFrom (scopes : List OpenScope) : List LogicalLine → List Fact
  | [] => []
  | line :: rest =>
    -- a decorator stands before the header that it belongs to, at whatever indentation
    if line.text.head? = some '@' then factsFrom scopes rest
    else
      let (next, facts) := readLine line.indent (closeScopes line.indent scopes) line.text
      facts ++ factsFrom next rest

/-- The facts of a source. -/
def facts (source : Text) : List Fact := factsFrom [] (logicalLines source)

end Python

end ClassDiagram
