import ClassDiagram.Finding.Language
import ClassDiagram.Model.Basic
import ClassDiagram.TypeExpr.Names

/-!
# Findings

A reader turns a source into findings: facts in the order in which they are met. The model of a
run is the fold of its findings, and the trace lists those that were noted.

* A declaration and an unterminated part are always noted.
* A member or relation is noted if it is new to the model; a base list of C# is noted as it is
  written.
-/

namespace ClassDiagram

/-- What is met in a source. -/
inductive Fact where
  /-- A declaration, with the word it is announced by and its place if that is told. -/
  | declares (name : String) (kind : Kind) (word : String) (offset : Option Nat)
  /-- A body that is never closed. -/
  | openBody (name : String)
  /-- A shape of an alias that is never closed. -/
  | openShape (name : String)
  | inherits (owner base : String)
  | realizes (owner interface : String)
  | field (owner name type : String)
  /-- A constructor parameter that is a field as well. -/
  | parameterProperty (owner name type : String)
  /-- A member of an enumeration, and the label under which it is noted. -/
  | enumMember (owner name label : String)
  /-- A value in the body of a type, which is a member only of an enumeration. -/
  | enumValue (owner name : String)
  | method (owner : String) (value : Method)
  | uses (owner name : String)
  deriving DecidableEq, Repr

namespace Fact

/-- The feature that a fact offers, and the entity to which. -/
def feature? : Fact → Option (String × Feature)
  | declares .. | openBody _ | openShape _ => none
  | inherits owner base => some (owner, .base base)
  | realizes owner interface => some (owner, .interface interface)
  | field owner name type => some (owner, .field ⟨name, type⟩)
  | parameterProperty owner name type => some (owner, .field ⟨name, type⟩)
  | enumMember owner name _ => some (owner, .field ⟨name, ""⟩)
  | enumValue owner name => some (owner, .field ⟨name, ""⟩)
  | method owner value => some (owner, .method value)
  | uses owner name => some (owner, .dependency name)

/-- The facts that a type expression is used by an entity. -/
def usesOf (language : Language) (owner : String) (expr : Text) : List Fact :=
  (language.dialect.usedNames expr).map (uses owner)

/-- The facts of a field: the field itself, and that its type is used. -/
def ofField (language : Language) (owner : String) (name type : Text) : List Fact :=
  field owner (String.ofList name) (String.ofList type) :: usesOf language owner type

/-- The facts of a method: the method itself, and that its types are used, the result last. -/
def ofMethod (language : Language) (owner : String) (name result : Text) (params : List Text) :
    List Fact :=
  method owner ⟨String.ofList name, String.ofList result, params.map String.ofList⟩ ::
    params.flatMap (usesOf language owner) ++ usesOf language owner result

end Fact

/-- A fact met in a source of a language. -/
structure Finding where
  language : Language
  fact : Fact
  deriving DecidableEq, Repr

namespace Finding

/-- Whether a fact bears on a model: a value in a body counts only in an enumeration. -/
def applies (model : Model) : Fact → Bool
  | .enumValue owner _ => (model.find? owner).any fun entity => entity.kind = .enum
  | _ => true

/-- The model after a finding. -/
def apply (model : Model) (finding : Finding) : Model :=
  match finding.fact with
  | .declares name kind _ _ => model.declare name kind
  | fact =>
    match fact.feature? with
    | some (owner, feature) => if applies model fact then model.offer owner feature else model
    | none => model

/-- Whether a finding is noted in the trace, given the model that it meets. -/
def isNoted (model : Model) (finding : Finding) : Bool :=
  match finding.language, finding.fact with
  | .cSharp, .inherits .. | .cSharp, .realizes .. => true
  | _, fact =>
    match fact.feature? with
    | some (owner, feature) => applies model fact && model.accepts owner feature
    | none => true

/-- A noted finding in words. -/
def message (finding : Finding) : String :=
  let tag := finding.language.tag
  match finding.fact with
  | .declares name _ word offset =>
    let place := match offset with
      | some n => s!" at offset {n}"
      | none => ""
    s!"{tag} {word} {name}{place}"
  | .openBody name => s!"{tag} body of {name} is unterminated"
  | .openShape name => s!"{tag} alias {name} has an unterminated shape"
  | .inherits owner base => s!"{tag} inheritance {base} <|-- {owner}"
  | .realizes owner interface => s!"{tag} realization {interface} <|.. {owner}"
  | .field owner name type => s!"{tag} field {owner}.{name}: {type}"
  | .parameterProperty owner name type => s!"{tag} parameter property {owner}.{name}: {type}"
  | .enumMember owner _ label =>
    match finding.language with
    | .java => s!"{tag} enum constant {owner}.{label}"
    | _ => s!"{tag} enum member {owner}.{label}"
  | .enumValue owner name => s!"{tag} enum member {owner}.{name}"
  | .method owner value =>
    match finding.language with
    | .cSharp | .typeScript =>
      s!"{tag} method {owner}.{value.name}({value.paramList}): {value.result}"
    | .python | .java => s!"{tag} method {owner}.{value.label}"
  | .uses owner name => s!"{finding.language.key} edge {owner} ..> {name}"

end Finding

namespace Model

/-- The model after some findings. -/
def applyAll (model : Model) (findings : List Finding) : Model :=
  findings.foldl Finding.apply model

/-- The findings that are noted while a model grows by them. -/
def noted (model : Model) : List Finding → List Finding
  | [] => []
  | finding :: rest =>
    let later := noted (finding.apply model) rest
    if finding.isNoted model then finding :: later else later

end Model

end ClassDiagram
