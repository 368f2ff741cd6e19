import ClassDiagram.Model.Entity

/-!
# The model

A model holds the entities of one run in the order of their first declaration, which is also the
order in which they are drawn. The kind of an entity is the one that it was first declared with.

* `declare` adds an entity unless one of that name is there.
* `offer` offers a feature to the entity of a name.
* `inheritances`, `realizations`, `uses`: the edges of the diagram.
-/

namespace ClassDiagram

/-- The entities of one run, in order of first declaration. -/
structure Model where
  entities : List Entity := []
  deriving DecidableEq

namespace Model

/-- A model without entities. -/
def empty : Model := {}

/-- The entity of a name. -/
def find? (model : Model) (name : String) : Option Entity :=
  model.entities.find? fun entity => entity.name = name

/-- Whether a name is declared. -/
def contains (model : Model) (name : String) : Bool := (model.find? name).isSome

/-- The declared names, in order. -/
def names (model : Model) : List String := model.entities.map Entity.name

/-- Declares a name; the kind counts only if the name is new. -/
def declare (model : Model) (name : String) (kind : Kind := .cls) : Model :=
  if model.contains name then model
  else { entities := model.entities ++ [{ name := name, kind := kind }] }

/-- Offers a feature to the entity called `owner`. -/
def offer (model : Model) (owner : String) (feature : Feature) : Model :=
  { entities := model.entities.map fun entity =>
      if entity.name = owner then entity.gain feature else entity }

/-- Whether the entity called `owner` would change by a feature. -/
def accepts (model : Model) (owner : String) (feature : Feature) : Bool :=
  (model.find? owner).any fun entity => entity.accepts feature

/-! ### Edges -/

/-- The pairs of base and heir. -/
def inheritances (model : Model) : List (String × String) :=
  model.entities.flatMap fun entity => entity.bases.toList.map fun base => (base, entity.name)

/-- The pairs of interface and implementor. -/
def realizations (model : Model) : List (String × String) :=
  model.entities.flatMap fun entity =>
    entity.interfaces.toList.map fun interface => (interface, entity.name)

/-- The pairs of user and used, where both are declared. -/
def uses (model : Model) : List (String × String) :=
  model.entities.flatMap fun entity =>
    (entity.dependencies.toList.filter model.contains).map fun used => (entity.name, used)

end Model

end ClassDiagram
