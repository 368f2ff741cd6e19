import ClassDiagram.Finding.Reading
import ClassDiagram.Text.Blank
import ClassDiagram.Tree.Node

/-!
# Reading Java

Java is read from its syntax tree. Every declared type, nested ones included, is an entity; every
type that is named inside a declaration is used by it, but what is named inside a nested
declaration belongs to the nested one.

* A tree with an error is not read at all.
* Reading goes step by step, and what was found before a step that faults counts.
-/

namespace ClassDiagram

namespace Java

/-- The kind that a type of node declares. -/
def kindOf? (type : String) : Option Kind :=
  match type with
  | "class_declaration" => some .cls
  | "interface_declaration" => some .interface
  | "enum_declaration" => some .enum
  | "record_declaration" => some .struct
  | _ => none

/-- Whether a node declares a type. -/
def isDeclaration (node : Node) : Bool := (kindOf? node.type).isSome

/-- Whether a node names a type. -/
def isTypeName (node : Node) : Bool :=
  node.type == "type_identifier" || node.type == "scoped_type_identifier"

mutual

/-- The type declarations below a node, outermost first. -/
def declarations : Node → List Node
  | .mk _ children => declarationsAmong children

/-- The type declarations at or below the named ones of some nodes, outermost first. -/
def declarationsAmong : List Node → List Node
  | [] => []
  | child :: rest =>
    if child.info.isNamed then
      (if isDeclaration child then [child] else []) ++ declarations child ++ declarationsAmong rest
    else declarationsAmong rest

end

mutual

/-- The nodes below a node that name a type, nested declarations excluded. -/
def typeNames : Node → List Node
  | .mk _ children => typeNamesAmong children

/-- The nodes at or below the named ones of some nodes that name a type, declarations excluded. -/
def typeNamesAmong : List Node → List Node
  | [] => []
  | child :: rest =>
    if child.info.isNamed && !isDeclaration child then
      -- a qualified name is one name, so that its parts are not looked at
      (if isTypeName child then [child] else typeNames child) ++ typeNamesAmong rest
    else typeNamesAmong rest

end

/-! ### Names and texts -/

/-- The text of a node, or nothing for a node that is not there. -/
def textOf (source : List UInt8) : Option Node → Except Fault Text
  | some node => (node.text source).mapError Fault.undecodable
  | none => .ok []

/-- The text of the child that plays a role. -/
def roleText (source : List UInt8) (node : Node) (role : String) : Except Fault Text :=
  textOf source (node.child? role)

/-- The name in a node that names a type, without qualifiers; of any other node the empty name. -/
def plainName (source : List UInt8) (node : Node) : Except Fault Text :=
  if node.type = "scoped_type_identifier" then
    (textOf source (some node)).map fun text => text.simpleName.strip
  else if node.type = "type_identifier" then textOf source (some node)
  else .ok []

/-- The name of a type without qualifiers and arguments. A generic type has to have a child. -/
def simpleName (source : List UInt8) (node : Node) : Except Fault Text :=
  if node.type = "generic_type" then
    match node.namedChildren with
    -- a generic type without a head is a fault of the tree
    | [] => .error .childMissing
    | head :: _ => plainName source head
  else plainName source node

/-- A step of a reading. -/
abbrev Step := Except Fault Fact

/-- The steps that come of an outcome: the fault, the fact, or none. -/
def steps : Except Fault (Option Fact) → List Step
  | .error fault => [.error fault]
  | .ok (some fact) => [.ok fact]
  | .ok none => []

/-- The entries of the type lists in a clause. -/
def listed (clause : Node) : List Node :=
  (clause.namedOfType "type_list").flatMap Node.namedChildren

/-- The steps of a clause that lists types, each as a relation. -/
def clauseSteps (source : List UInt8) (relation : String → Fact) (clause : Node) : List Step :=
  (listed clause).flatMap fun entry =>
    steps do
      let name ← simpleName source entry
      return if name.isEmpty then none else some (relation (String.ofList name))

/-! ### Members -/

/-- The fact of a field, unless it has no name. -/
def fieldFact (owner : String) (name type : Text) : Option Fact :=
  if name.isEmpty then none else some (.field owner (String.ofList name) (String.ofList type))

/-- The type of a parameter, if the node is one. -/
def parameterType (source : List UInt8) (param : Node) : Except Fault (Option Text) :=
  if param.type = "formal_parameter" then (roleText source param "type").map some
  else if param.type = "spread_parameter" then
    -- the type of a spread parameter plays no role, and is the first child that is nothing else
    let types := param.namedChildren.filter fun child =>
      child.type != "modifiers" && child.type != "variable_declarator"
    match types with
    | [] => .ok none
    | first :: _ => (textOf source (some first)).map fun text => some (text ++ ['.', '.', '.'])
  else .ok none

/-- The fact of a method. -/
def methodFact (source : List UInt8) (owner : String) (node : Node) : Except Fault Fact := do
  let name ← roleText source node "name"
  let type ← roleText source node "type"
  let params ← (((node.child? "parameters").map Node.namedChildren).getD []).mapM
    (parameterType source)
  let result := if type.isEmpty then "void" else String.ofList type
  return .method owner ⟨String.ofList name, result, (params.filterMap id).map String.ofList⟩

/-- The steps of a declaration of fields. -/
def fieldSteps (source : List UInt8) (owner : String) (node : Node) : List Step :=
  match roleText source node "type" with
  | .error fault => [.error fault]
  | .ok type =>
    (node.inRole "declarator").flatMap fun declarator =>
      steps ((roleText source declarator "name").map fun name => fieldFact owner name type)

mutual

/-- The steps of the members in a body. -/
def memberSteps (source : List UInt8) (owner : String) : Node → List Step
  | .mk _ children => memberStepsAmong source owner children

/-- The steps of the members among some nodes. -/
def memberStepsAmong (source : List UInt8) (owner : String) : List Node → List Step
  | [] => []
  | member :: rest =>
    let here :=
      if !member.info.isNamed then []
      else if member.type = "enum_constant" then
        steps ((roleText source member "name").map fun name =>
          if name.isEmpty then none
          else some (.enumMember owner (String.ofList name) (String.ofList name)))
      -- the members behind the constants stand in a node of their own
      else if member.type = "enum_body_declarations" then memberSteps source owner member
      else if member.type = "field_declaration" ∨ member.type = "constant_declaration" then
        fieldSteps source owner member
      else if member.type = "method_declaration" then
        steps ((methodFact source owner member).map some)
      else []
    here ++ memberStepsAmong source owner rest

end

/-! ### Declarations -/

/-- The fact that a type is used, unless it is built in or a wrapper. -/
def useFact (owner : String) (name : Text) : Option Fact :=
  let used := String.ofList name
  if name.isEmpty || Dialect.java.isPrimitive used || Dialect.java.containers.contains used then
    none
  else some (.uses owner used)

/-- The steps of the components of a record. -/
def componentSteps (source : List UInt8) (owner : String) (node : Node) : List Step :=
  let params := ((node.child? "parameters").map (·.namedOfType "formal_parameter")).getD []
  params.flatMap fun param =>
    steps do
      let name ← roleText source param "name"
      let type ← roleText source param "type"
      return fieldFact owner name type

/-- The steps of a declaration called `owner`. -/
def contentSteps (source : List UInt8) (owner : String) (node : Node) : List Step :=
  let superclass := ((node.child? "superclass").bind fun clause => clause.namedChildren.head?).toList
  superclass.flatMap (fun base =>
      steps ((simpleName source base).map fun name => some (.inherits owner (String.ofList name)))) ++
    -- what an interface extends is told as its bases
    (node.namedOfType "extends_interfaces").flatMap (clauseSteps source (.inherits owner)) ++
    (node.child? "interfaces").toList.flatMap (clauseSteps source (.realizes owner)) ++
    (if node.type = "record_declaration" then componentSteps source owner node else []) ++
    (node.child? "body").toList.flatMap (memberSteps source owner) ++
    (typeNames node).flatMap fun reference =>
      steps ((simpleName source reference).map (useFact owner))

/-- The steps of a declaration; without a name it is none. -/
def declarationSteps (source : List UInt8) (node : Node) : List Step :=
  match kindOf? node.type, roleText source node "name" with
  | none, _ => []
  | some _, .error fault => [.error fault]
  | some kind, .ok name =>
    if name.isEmpty then []
    else
      let owner := String.ofList name
      let word := String.ofList (Text.upTo '_' node.type.toList)
      .ok (.declares owner kind word none) :: contentSteps source owner node

/-- The reading of a source with its syntax tree. -/
def read (source : List UInt8) (root : Node) : Reading :=
  match root.errorLine? with
  | some line => { fault := some (.syntaxError line) }
  | none => .ofSteps .java ((declarations root).flatMap (declarationSteps source))

end Java

end ClassDiagram
