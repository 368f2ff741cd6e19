import ClassDiagram.Model.Basic

/-!
# Mermaid drawings

A model as a Mermaid class diagram. Type arguments are written between tildes, the type of a field
stands before its name, and an entity without members and stereotype is a single line.
-/

namespace ClassDiagram

namespace Mermaid

/-- A type with tildes in place of angle brackets. -/
def typeText (type : String) : String :=
  type.map fun c => if c = '<' ∨ c = '>' then '~' else c

/-- The stereotype that tells a kind from a class. -/
def stereotype? : Kind → Option String
  | .cls => none
  | .interface => some "interface"
  | .struct => some "struct"
  | .enum => some "enumeration"

/-- A field in a class block. -/
def fieldLine (field : Field) : String :=
  if field.type.isEmpty then s!"        {field.name}"
  else s!"        {typeText field.type} {field.name}"

/-- A method in a class block. -/
def methodLine (method : Method) : String :=
  let params := ", ".intercalate (method.params.map typeText)
  s!"        {method.name}({params}) {typeText method.result}"

/-- The lines inside the block of an entity. -/
def contents (entity : Entity) : List String :=
  (stereotype? entity.kind).toList.map (fun stereotype => s!"        <<{stereotype}>>") ++
    entity.fields.map fieldLine ++ entity.methods.map methodLine

/-- The lines of an entity. -/
def block (entity : Entity) : List String :=
  let inside := contents entity
  if inside.isEmpty then [s!"    class {entity.name}"]
  else s!"    class {entity.name} \x7b" :: inside ++ ["    \x7d"]

/-- The lines of a drawing. -/
def lines (model : Model) : List String :=
  ["classDiagram"] ++ model.entities.flatMap block ++
    model.inheritances.map (fun (base, heir) => s!"    {base} <|-- {heir}") ++
    model.realizations.map (fun (interface, owner) => s!"    {interface} <|.. {owner}") ++
    model.uses.map (fun (user, used) => s!"    {user} ..> {used}")

/-- The drawing of a model. -/
def render (model : Model) : String := String.join ((lines model).map (· ++ "\n"))

end Mermaid

end ClassDiagram
