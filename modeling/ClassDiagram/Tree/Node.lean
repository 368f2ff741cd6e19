import ClassDiagram.Text.Utf8

/-!
# Syntax trees

A node of a syntax tree has a type, the bytes of the source that it covers, the role that it plays
for its parent, and children, of which the named ones carry meaning. A node may be missing from the
source or tell that an error lies at or below it.

* `firstError?` finds the first error in reading order and visits only what is marked.
* `induct`: induction over a tree.
-/

namespace ClassDiagram

/-- What a node tells of itself. -/
structure NodeInfo where
  type : String
  /-- The first byte of the source that the node covers. -/
  start : Nat
  /-- The first byte behind the node. -/
  stop : Nat
  /-- The role that the node plays for its parent. -/
  role : Option String := none
  /-- Whether the node carries meaning, unlike a bracket or a comma. -/
  isNamed : Bool := true
  /-- Whether an error lies at or below the node. -/
  hasError : Bool := false
  /-- Whether the node was added although the source lacks it. -/
  isMissing : Bool := false
  /-- The line on which the node starts, counted from zero. -/
  row : Nat := 0
  deriving DecidableEq, Repr

/-- A node of a syntax tree. -/
inductive Node where
  | mk (info : NodeInfo) (children : List Node)
  deriving Repr

namespace Node

/-- What a node tells of itself. -/
def info : Node → NodeInfo
  | mk info _ => info

/-- All children, in order. -/
def children : Node → List Node
  | mk _ children => children

/-- The type of a node. -/
def type (node : Node) : String := node.info.type

/-- The children that carry meaning. -/
def namedChildren (node : Node) : List Node := node.children.filter fun child => child.info.isNamed

/-- The named children of a type. -/
def namedOfType (node : Node) (type : String) : List Node :=
  node.namedChildren.filter fun child => child.type = type

/-- The children that play a role. -/
def inRole (node : Node) (role : String) : List Node :=
  node.children.filter fun child => child.info.role = some role

/-- The first child that plays a role. -/
def child? (node : Node) (role : String) : Option Node := (node.inRole role).head?

/-- The text that a node covers. -/
def text (source : List UInt8) (node : Node) : Except Utf8.DecodeError Text :=
  Utf8.decode ((source.take node.info.stop).drop node.info.start)

/-- Whether a node is an error itself. -/
def isError (node : Node) : Bool := node.type == "ERROR" || node.info.isMissing

mutual

/-- The first error at or below a node, looked for only where one is announced. -/
def firstError? : Node → Option Node
  | mk info children =>
    if isError (mk info children) then some (mk info children) else firstErrorAmong? children

/-- The first error at or below some nodes, looked for only where one is announced. -/
def firstErrorAmong? : List Node → Option Node
  | [] => none
  | child :: rest =>
    if child.info.hasError ∨ child.info.isMissing then
      (firstError? child).or (firstErrorAmong? rest)
    else firstErrorAmong? rest

end

/-- The line of the error in a tree that has one, counted from one; zero if none is found. -/
def errorLine? (root : Node) : Option Nat :=
  if root.info.hasError then
    some (match firstError? root with
      | some error => error.info.row + 1
      | none => 0)
  else none

/-- Induction over a tree: what holds of a node if it holds of its children, holds of all. -/
theorem induct {motive : Node → Prop}
    (step : ∀ node, (∀ child ∈ node.children, motive child) → motive node) (node : Node) :
    motive node := by
  refine step node fun child hchild => ?_
  have hlt : sizeOf child < sizeOf node := by
    obtain ⟨info, children⟩ := node
    have hmem : child ∈ children := hchild
    exact Nat.lt_of_lt_of_le (List.sizeOf_lt_of_mem hmem) (by simp)
  exact induct step child
termination_by sizeOf node
decreasing_by exact hlt

end Node

end ClassDiagram
