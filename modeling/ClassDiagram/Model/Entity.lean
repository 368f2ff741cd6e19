import ClassDiagram.Model.NameSet
import ClassDiagram.Text.Quoted

/-!
# Entities

An entity is a declared type with its members and relations. It gains features one at a time, and
a feature that would break one of its rules changes nothing:

* fields are unique by name, methods by name and parameters;
* no relation leads to the entity itself or to the empty name;
* what is a base or an interface is no dependency.
-/

namespace ClassDiagram

/-- The kinds of declared types. -/
inductive Kind where
  | cls
  | interface
  | struct
  | enum
  deriving DecidableEq, Repr

namespace Kind

/-- The word for a kind. -/
def word : Kind → String
  | cls => "class"
  | interface => "interface"
  | struct => "struct"
  | enum => "enum"

/-- The kind that a word stands for. -/
def ofWord? (word : String) : Option Kind :=
  [cls, interface, struct, enum].find? fun kind => kind.word = word

/-- What is said of a word that stands for no kind. -/
def unknownMessage (word : String) : String := s!"{Quoted.quote word} is not a valid EntityKind"

end Kind

/-- A field, property or enum member. The type is written as in the source, and empty for an enum
member. -/
structure Field where
  name : String
  type : String := ""
  deriving DecidableEq, Repr

/-- A method or constructor. -/
structure Method where
  name : String
  result : String := "void"
  params : List String := []
  deriving DecidableEq, Repr

namespace Field

/-- A field in one line. -/
def label (field : Field) : String :=
  if field.type.isEmpty then field.name else s!"{field.name}:{field.type}"

end Field

namespace Method

/-- What tells a method of an entity from its others. -/
def signature (method : Method) : String × List String := (method.name, method.params)

/-- The parameters in one line. -/
def paramList (method : Method) : String := ", ".intercalate method.params

/-- A method in one line. -/
def label (method : Method) : String := s!"{method.name}({method.paramList}):{method.result}"

end Method

/-- What an entity can gain. -/
inductive Feature where
  | field (value : Field)
  | method (value : Method)
  | base (name : String)
  | interface (name : String)
  | dependency (name : String)
  deriving DecidableEq, Repr

/-- A declared type and all that is known of it. -/
structure Entity where
  name : String
  kind : Kind := .cls
  fields : List Field := []
  methods : List Method := []
  bases : NameSet := ∅
  interfaces : NameSet := ∅
  dependencies : NameSet := ∅
  deriving DecidableEq

namespace Entity

/-- The field of a name. -/
def field? (entity : Entity) (name : String) : Option Field :=
  entity.fields.find? fun field => field.name = name

/-- The method of a signature. -/
def method? (entity : Entity) (name : String) (params : List String) : Option Method :=
  entity.methods.find? fun method => method.name = name ∧ method.params = params

/-- Whether a name can be related to the entity at all: it is neither empty nor the entity's. -/
def isOther (entity : Entity) (name : String) : Bool := !name.isEmpty && name != entity.name

/-- Whether a feature is new to the entity and keeps its rules. -/
def accepts (entity : Entity) : Feature → Bool
  | .field value => (entity.field? value.name).isNone
  | .method value => (entity.method? value.name value.params).isNone
  | .base name => entity.isOther name && name ∉ entity.bases
  | .interface name => entity.isOther name && name ∉ entity.interfaces
  -- a base or an interface is not listed as a dependency too
  | .dependency name =>
    entity.isOther name && name ∉ entity.bases && name ∉ entity.interfaces &&
      name ∉ entity.dependencies

/-- The entity with a feature that it accepts. A new base or interface is no dependency any more. -/
def put (entity : Entity) : Feature → Entity
  | .field value => { entity with fields := entity.fields ++ [value] }
  | .method value => { entity with methods := entity.methods ++ [value] }
  | .base name =>
    { entity with
      bases := entity.bases.insert name
      dependencies := entity.dependencies.erase name }
  | .interface name =>
    { entity with
      interfaces := entity.interfaces.insert name
      dependencies := entity.dependencies.erase name }
  | .dependency name => { entity with dependencies := entity.dependencies.insert name }

/-- The entity after it has been offered a feature. -/
def gain (entity : Entity) (feature : Feature) : Entity :=
  if entity.accepts feature then entity.put feature else entity

/-- An entity in one line. -/
def label (entity : Entity) : String := s!"{entity.kind.word} {entity.name}"

@[simp] theorem name_gain (entity : Entity) (feature : Feature) :
    (entity.gain feature).name = entity.name := by
  unfold gain
  split
  · cases feature <;> rfl
  · rfl

@[simp] theorem kind_gain (entity : Entity) (feature : Feature) :
    (entity.gain feature).kind = entity.kind := by
  unfold gain
  split
  · cases feature <;> rfl
  · rfl

end Entity

end ClassDiagram
