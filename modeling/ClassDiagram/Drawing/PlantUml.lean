import ClassDiagram.Model.Basic

/-!
# PlantUML drawings

A model as a PlantUML document: one block for each entity, then inheritance and realization, then
dependencies. Every line ends in a line feed.
-/

namespace ClassDiagram

namespace PlantUml

/-- A field in a class block. -/
def fieldLine (indent : String) (field : Field) : String :=
  if field.type.isEmpty then indent ++ field.name
  else s!"{indent}{field.name} : {field.type}"

/-- A method in a class block. -/
def methodLine (indent : String) (method : Method) : String :=
  s!"{indent}{method.name}({method.paramList}) : {method.result}"

/-- The block of an entity. -/
def block (indent : String) (entity : Entity) : List String :=
  (entity.label ++ " \x7b") :: entity.fields.map (fieldLine indent) ++
    entity.methods.map (methodLine indent) ++ ["\x7d"]

/-- Lines followed by an empty one, if there are any. -/
def paragraph (lines : List String) : List String := if lines.isEmpty then [] else lines ++ [""]

/-- The lines of a drawing. -/
def lines (indent : String) (model : Model) : List String :=
  let relations :=
    model.inheritances.map (fun (base, heir) => s!"{base} <|-- {heir}") ++
      model.realizations.map (fun (interface, owner) => s!"{interface} <|.. {owner}")
  let dependencies := model.uses.map fun (user, used) => s!"{user} ..> {used}"
  ["@startuml", ""] ++ model.entities.flatMap (fun entity => block indent entity ++ [""]) ++
    paragraph relations ++ paragraph dependencies ++ ["@enduml"]

/-- The drawing of a model, with the members of a block indented. -/
def render (model : Model) (indent : String := "  ") : String :=
  String.join ((lines indent model).map (· ++ "\n"))

end PlantUml

end ClassDiagram
