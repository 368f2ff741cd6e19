import Mathlib.Data.List.Forall2
import ClassDiagram.Proofs.Reading.JavaFault

/-!
# The first error of a syntax tree

The search for the first error of a tree goes down only to nodes that announce one. An announcement
need not be true, and then the search turns back and goes on with the next node. As long as every
error is announced by all nodes above it, the search finds what a search through all nodes finds,
and more announcements change nothing.

* `Node.Announced`: every error in a tree is announced.
* `Node.firstError?_of_announced`: the search finds the first error in reading order.
* `Node.Raised`: the same tree with more announcements.
* `Node.rel_firstError?`: the same error is found in both.
* `Java.read_announced`: what is read of a tree whose errors are announced.
-/

namespace ClassDiagram

namespace Node

variable {root node inner other : Node} {siblings others : List Node}

/-- The nodes of a tree are its root and those below. -/
theorem nodes_eq (node : Node) : node.nodes = node :: nodesAmong node.children := by
  obtain ⟨info, children⟩ := node
  rw [nodes, Node.children]

/-- The first error is the root, or the first one below its children. -/
theorem firstError?_eq (node : Node) :
    node.firstError? = if node.isError then some node else firstErrorAmong? node.children := by
  obtain ⟨info, children⟩ := node
  rw [firstError?, Node.children]

/-! ## The search -/

/-- Whether every node that is of the type of errors, or that has an error below it, announces an
error. -/
def Announced (root : Node) : Prop :=
  ∀ node ∈ root.nodes,
    (node.type = "ERROR" ∨ ∃ below ∈ nodesAmong node.children, below.isError = true) →
      node.info.hasError = true

/-- A root that is an error, or has one below it, is flagged. -/
theorem Announced.self (h : root.Announced) :
    (root.type = "ERROR" ∨ ∃ below ∈ nodesAmong root.children, below.isError = true) →
      root.info.hasError = true :=
  h root (by rw [nodes_eq]; exact List.mem_cons_self)

/-- If a tree announces its errors, so does the tree below each child. -/
theorem Announced.child (h : root.Announced) (hinner : inner ∈ root.children) :
    inner.Announced := by
  intro node hnode
  refine h node ?_
  rw [nodes_eq]
  exact List.mem_cons_of_mem _ (nodes_subset_nodesAmong hinner hnode)

/-- Where nothing is announced and the node itself is not missing, there is no error. -/
theorem Announced.isError_eq_false (h : root.Announced)
    (hnone : ¬(root.info.hasError = true ∨ root.info.isMissing = true)) :
    ∀ node ∈ root.nodes, node.isError = false := by
  obtain ⟨hflag, hmissing⟩ := not_or.mp hnone
  obtain ⟨htype, hbelow⟩ := not_or.mp (mt h.self hflag)
  intro node hnode
  rw [nodes_eq] at hnode
  rcases List.mem_cons.mp hnode with rfl | hnode
  · rw [isError, beq_eq_false_iff_ne.mpr htype, Bool.false_or, eq_false_of_ne_true hmissing]
  · exact eq_false_of_ne_true fun herror => hbelow ⟨node, hnode, herror⟩

/-- Among trees whose errors are announced, the first error is the first one in reading order. -/
theorem firstErrorAmong?_of_announced
    (h : ∀ child ∈ siblings, child.Announced ∧ child.firstError? = child.nodes.find? isError) :
    firstErrorAmong? siblings = (nodesAmong siblings).find? isError := by
  induction siblings with
  | nil => rw [firstErrorAmong?, nodesAmong, List.find?_nil]
  | cons child rest ih =>
      obtain ⟨⟨hannounced, hchild⟩, hrest⟩ := List.forall_mem_cons.mp h
      rw [firstErrorAmong?, nodesAmong, List.find?_append, ih hrest, hchild]
      split
      · rfl
      -- the child is passed over, and a search would have found nothing in it
      · rename_i hnone
        have hfind : child.nodes.find? isError = none :=
          List.find?_eq_none.mpr fun node hnode => by
            simp [hannounced.isError_eq_false hnone node hnode]
        rw [hfind, Option.none_or]

/-- If every error is announced, the search finds the first one in reading order. -/
theorem firstError?_of_announced (h : root.Announced) :
    root.firstError? = root.nodes.find? isError := by
  induction root using Node.induct with
  | step node ih =>
      have hchildren := firstErrorAmong?_of_announced fun child hchild =>
        ⟨h.child hchild, ih child hchild (h.child hchild)⟩
      rw [firstError?_eq, nodes_eq, List.find?_cons, hchildren]
      cases node.isError <;> rfl

/-! ## More announcements -/

/-- Whether a tree is another one in which more nodes may announce an error. -/
inductive Raised : Node → Node → Prop where
  | mk {info raised : NodeInfo} {children others : List Node} :
      raised = { info with hasError := raised.hasError } →
      (info.hasError = true → raised.hasError = true) → List.Forall₂ Raised children others →
      Raised (.mk info children) (.mk raised others)

namespace Raised

/-- Raising changes no more of a node than the flag. -/
theorem info_eq (h : Raised node other) :
    other.info = { node.info with hasError := other.info.hasError } := by
  cases h with
  | mk hinfo _ _ => exact hinfo

theorem type_eq (h : Raised node other) : other.type = node.type :=
  (congrArg NodeInfo.type h.info_eq :)

theorem row_eq (h : Raised node other) : other.info.row = node.info.row :=
  (congrArg NodeInfo.row h.info_eq :)

/-- A raised node is an error if and only if the node was one. -/
theorem isError_eq (h : Raised node other) : node.isError = other.isError := by
  have hmissing : other.info.isMissing = node.info.isMissing :=
    (congrArg NodeInfo.isMissing h.info_eq :)
  rw [isError, isError, h.type_eq, hmissing]

/-- Raising does not take a flag back. -/
theorem hasError (h : Raised node other) (hflag : node.info.hasError = true) :
    other.info.hasError = true := by
  cases h with
  | mk _ hraised _ => exact hraised hflag

/-- The children of a raised node are raised one by one. -/
theorem children (h : Raised node other) : List.Forall₂ Raised node.children other.children := by
  cases h with
  | mk _ _ hchildren => exact hchildren

/-- The nodes below raised nodes are raised one by one. -/
theorem nodesAmong (h : List.Forall₂ Raised siblings others)
    (hnodes : ∀ child ∈ siblings, ∀ other, Raised child other →
      List.Forall₂ Raised child.nodes other.nodes) :
    List.Forall₂ Raised (Node.nodesAmong siblings) (Node.nodesAmong others) := by
  induction h with
  | nil => exact .nil
  | cons hfirst _ ih =>
      obtain ⟨hchild, hrest⟩ := List.forall_mem_cons.mp hnodes
      rw [Node.nodesAmong, Node.nodesAmong]
      exact List.rel_append (hchild _ hfirst) (ih hrest)

/-- The nodes of the two trees correspond one by one. -/
theorem nodes (h : Raised node other) : List.Forall₂ Raised node.nodes other.nodes := by
  induction node using Node.induct generalizing other with
  | step node ih =>
      rw [nodes_eq, nodes_eq]
      exact .cons h (nodesAmong h.children fun child hchild _ => ih child hchild)

/-- Each raised node is there because of a node of the tree. -/
theorem exists_of_mem (h : List.Forall₂ Raised siblings others) (hmem : other ∈ others) :
    ∃ node ∈ siblings, Raised node other := by
  induction h with
  | nil => exact absurd hmem List.not_mem_nil
  | cons hfirst _ ih =>
      rcases List.mem_cons.mp hmem with rfl | hrest
      · exact ⟨_, List.mem_cons_self, hfirst⟩
      · obtain ⟨node, hnode, hraised⟩ := ih hrest
        exact ⟨node, List.mem_cons_of_mem _ hnode, hraised⟩

/-- The same error comes first in corresponding nodes. -/
theorem find?_isError (h : List.Forall₂ Raised siblings others) :
    Option.Rel Raised (siblings.find? isError) (others.find? isError) := by
  induction h with
  | nil => exact .none
  | @cons node other _ _ hfirst _ ih =>
      rw [List.find?_cons, List.find?_cons, ← hfirst.isError_eq]
      cases node.isError with
      | true => exact .some hfirst
      | false => exact ih

end Raised

/-- More announcements leave no error without one. -/
theorem Announced.raised (h : root.Announced) (hraised : Raised root other) : other.Announced := by
  intro node hnode hneeds
  obtain ⟨before, hbefore, hpair⟩ := Raised.exists_of_mem hraised.nodes hnode
  refine hpair.hasError (h before hbefore ?_)
  refine hneeds.imp (fun htype => hpair.type_eq.symm.trans htype) ?_
  rintro ⟨below, hbelow, herror⟩
  have hamong := Raised.nodesAmong hpair.children fun _ _ _ hchild => hchild.nodes
  obtain ⟨origin, horigin, hsame⟩ := Raised.exists_of_mem hamong hbelow
  exact ⟨origin, horigin, hsame.isError_eq.trans herror⟩

/-- With more announcements the same error is found. -/
theorem rel_firstError? (h : root.Announced) (hraised : Raised root other) :
    Option.Rel Raised root.firstError? other.firstError? := by
  rw [firstError?_of_announced h, firstError?_of_announced (h.raised hraised)]
  exact Raised.find?_isError hraised.nodes

/-- The line of an error that is searched for, counted from one; zero without an error. -/
def lineOf (error : Option Node) : Nat := error.elim 0 fun node => node.info.row + 1

/-- A raised error is on the same line. -/
theorem lineOf_congr {error raised : Option Node} (h : Option.Rel Raised error raised) :
    lineOf raised = lineOf error := by
  cases h with
  | none => rfl
  | some hpair => exact congrArg (· + 1) hpair.row_eq

/-- The line of an error is told if the root is flagged. -/
theorem errorLine?_eq (root : Node) :
    root.errorLine? = if root.info.hasError then some (lineOf root.firstError?) else none := by
  unfold errorLine?
  cases root.firstError? <;> rfl

end Node

namespace Java

open Node

/-- In a tree in which every error is announced, the first error in reading order is found, and none
exactly if there is none. If the root announces an error, the tree is rejected with the line of the
error, or line zero without one; otherwise the tree is read. Further announcements change neither
the error that is found nor, if the root announces one already, what is made of the tree. -/
theorem read_announced (source : List UInt8) (root : Node) (h : root.Announced) :
    root.firstError? = root.nodes.find? isError ∧
      (root.firstError? = none ↔ ∀ node ∈ root.nodes, node.isError = false) ∧
      (root.info.hasError = true → read source root =
        { fault := some (.syntaxError (lineOf (root.nodes.find? isError))) }) ∧
      (root.info.hasError = false → read source root =
        .ofSteps .java ((declarations root).flatMap (declarationSteps source))) ∧
      ∀ other, Raised root other → Option.Rel Raised root.firstError? other.firstError? ∧
        (root.info.hasError = true → read source other = read source root) := by
  have hfirst := firstError?_of_announced h
  have hrejected : ∀ tree : Node, tree.info.hasError = true →
      read source tree = { fault := some (.syntaxError (lineOf tree.firstError?)) } := by
    intro tree hflag
    rw [read, errorLine?_eq, hflag]
    rfl
  refine ⟨hfirst, ?_, fun hflag => hfirst ▸ hrejected root hflag, fun hflag => ?_,
    fun other hraised => ⟨rel_firstError? h hraised, fun hflag => ?_⟩⟩
  · rw [hfirst, List.find?_eq_none]
    simp only [Bool.not_eq_true]
  · rw [read, errorLine?_eq, hflag]
    rfl
  · rw [hrejected root hflag, hrejected other (hraised.hasError hflag),
      lineOf_congr (rel_firstError? h hraised)]

/-- A tree with a missing node, which does not announce itself, before an error. A block without
errors announces one, and so may a comment. -/
def gapTree (onComment : Bool) : Node :=
  .mk { type := "program", start := 0, stop := 9, hasError := true } [
    .mk { type := "block", start := 0, stop := 2, hasError := true } [
      .mk { type := "identifier", start := 1, stop := 1 } []],
    .mk { type := "line_comment", start := 2, stop := 4, hasError := onComment } [],
    .mk { type := "semicolon", start := 4, stop := 4, isMissing := true, row := 3 } [],
    .mk { type := "ERROR", start := 5, stop := 9, hasError := true, row := 6 } []]

theorem announced_gapTree : (gapTree false).Announced := by
  intro node hnode
  simp only [gapTree, nodes, Node.nodesAmong, List.append_nil, List.cons_append, List.nil_append,
    List.mem_cons, List.not_mem_nil, or_false] at hnode
  rcases hnode with rfl | rfl | rfl | rfl | rfl | rfl <;>
    simp [Node.type, Node.info, Node.children, Node.nodesAmong, Node.nodes, Node.isError]

theorem raised_gapTree : Raised (gapTree false) (gapTree true) := by
  have hsame : ∀ info : NodeInfo, Raised (.mk info []) (.mk info []) :=
    fun info => .mk rfl id .nil
  refine .mk rfl id (.cons ?_ (.cons ?_ (.cons (hsame _) (.cons (hsame _) .nil))))
  · exact .mk rfl id (.cons (hsame _) .nil)
  · exact .mk rfl (fun _ => rfl) .nil

/-- The missing node is found on the fourth line, whether or not the comment announces an error. -/
theorem read_announced_gapTree :
    (gapTree false).Announced ∧ Raised (gapTree false) (gapTree true) ∧
      read [] (gapTree false) = { fault := some (.syntaxError 4) } ∧
      read [] (gapTree true) = { fault := some (.syntaxError 4) } := by
  obtain ⟨-, -, hrejected, -, hraised⟩ := read_announced [] (gapTree false) announced_gapTree
  have hread : read [] (gapTree false) = { fault := some (.syntaxError 4) } := by
    rw [hrejected rfl]
    decide +kernel
  exact ⟨announced_gapTree, raised_gapTree, hread, ((hraised _ raised_gapTree).2 rfl).trans hread⟩

end Java

end ClassDiagram
