import ClassDiagram.Proofs.Text.Utf8
import ClassDiagram.Reader.Java

/-!
# Faults of reading a syntax tree

A syntax tree can stop its reading half-way if a node lacks a child or if its bytes cut a character.
In a tree whose nodes fit the text, neither happens: the tree has an error and nothing is read of it,
or it is read to its end.

* `Node.nodes`: the nodes of a tree. `Node.Fits`: a node that fits a text.
* `Java.Sure`, `Java.AllOk`: an outcome, and steps, without a fault.
* `Java.read_of_allFit`: a tree whose nodes fit is read to its end, unless it has an error.
-/

namespace ClassDiagram

namespace Node

mutual

/-- The nodes at and below a node, in reading order. -/
def nodes : Node → List Node
  | mk info children => mk info children :: nodesAmong children

/-- The nodes at and below some nodes, in reading order. -/
def nodesAmong : List Node → List Node
  | [] => []
  | child :: rest => nodes child ++ nodesAmong rest

end

/-- Whether a node fits a text: its bytes start and stop between characters, and a generic type has
a named child. -/
structure Fits (text : Text) (node : Node) : Prop where
  start : node.info.start ∈ text.boundaries
  stop : node.info.stop ∈ text.boundaries
  generic : node.type = "generic_type" → node.namedChildren.isEmpty = false

instance (text : Text) (node : Node) : Decidable (node.Fits text) :=
  decidable_of_iff (node.info.start ∈ text.boundaries ∧ node.info.stop ∈ text.boundaries ∧
      (node.type = "generic_type" → node.namedChildren.isEmpty = false))
    ⟨fun h => ⟨h.1, h.2.1, h.2.2⟩, fun h => ⟨h.start, h.stop, h.generic⟩⟩

/-- Whether all nodes of a tree fit a text. -/
def AllFit (text : Text) (root : Node) : Prop := ∀ node ∈ root.nodes, node.Fits text

instance (text : Text) (root : Node) : Decidable (root.AllFit text) :=
  inferInstanceAs (Decidable (∀ node ∈ root.nodes, node.Fits text))

/-- The nodes below a child are among those below all the children. -/
theorem nodes_subset_nodesAmong {child : Node} {children : List Node} (h : child ∈ children) :
    child.nodes ⊆ nodesAmong children := by
  induction children with
  | nil => exact absurd h List.not_mem_nil
  | cons first rest ih =>
      rw [nodesAmong]
      rcases List.mem_cons.mp h with rfl | hrest
      · exact List.subset_append_left _ _
      · exact List.subset_append_of_subset_right _ (ih hrest)

namespace AllFit

variable {text : Text} {node inner : Node}

/-- If a tree fits, its root does. -/
theorem self (h : node.AllFit text) : node.Fits text := by
  obtain ⟨info, children⟩ := node
  refine h _ ?_
  rw [nodes]
  exact List.mem_cons_self

/-- If a tree fits, the tree below each child does. -/
theorem child (h : node.AllFit text) (hchild : inner ∈ node.children) : inner.AllFit text := by
  obtain ⟨info, children⟩ := node
  intro below hbelow
  refine h below ?_
  rw [nodes]
  exact List.mem_cons_of_mem _ (nodes_subset_nodesAmong hchild hbelow)

/-- If a tree fits, the tree below each named child does. -/
theorem named (h : node.AllFit text) (hchild : inner ∈ node.namedChildren) : inner.AllFit text :=
  h.child (List.mem_filter.mp hchild |>.1)

theorem ofType (h : node.AllFit text) {type : String} (hchild : inner ∈ node.namedOfType type) :
    inner.AllFit text :=
  h.named (List.mem_filter.mp hchild |>.1)

theorem role (h : node.AllFit text) {role : String} (hchild : inner ∈ node.inRole role) :
    inner.AllFit text :=
  h.child (List.mem_filter.mp hchild |>.1)

/-- If a tree fits, the tree below the first child in a role does. -/
theorem child? (h : node.AllFit text) {role : String} (hchild : node.child? role = some inner) :
    inner.AllFit text :=
  h.role (List.mem_of_head? hchild)

end AllFit

end Node

namespace Java

/-! ## Outcomes without a fault -/

/-- Whether an outcome is no fault. -/
def Sure {Value : Type} (outcome : Except Fault Value) : Prop := ∃ value, outcome = .ok value

section Sure

variable {Value Other : Type} {outcome : Except Fault Value}

theorem sure_ok (value : Value) : Sure (.ok value : Except Fault Value) := ⟨value, rfl⟩

/-- Outcomes without a fault, one made from the other, are one outcome without a fault. -/
theorem Sure.bind (h : Sure outcome) {next : Value → Except Fault Other}
    (hnext : ∀ value, Sure (next value)) : Sure (outcome >>= next) := by
  obtain ⟨value, rfl⟩ := h
  exact hnext value

theorem Sure.map (h : Sure outcome) (change : Value → Other) : Sure (outcome.map change) := by
  obtain ⟨value, rfl⟩ := h
  exact sure_ok (change value)

/-- Outcomes without a fault are one outcome without a fault. -/
theorem sure_mapM {Item : Type} {items : List Item} {tell : Item → Except Fault Value}
    (h : ∀ item ∈ items, Sure (tell item)) : Sure (items.mapM tell) := by
  induction items with
  | nil => exact sure_ok []
  | cons item rest ih =>
      rw [List.mapM_cons]
      refine (h item List.mem_cons_self).bind fun value => ?_
      refine (ih fun other hother => h other (List.mem_cons_of_mem _ hother)).bind fun values => ?_
      exact sure_ok (value :: values)

end Sure

/-- Whether no step faults. -/
def AllOk (steps : List Step) : Prop := ∀ step ∈ steps, Sure step

section AllOk

variable {first second : List Step}

theorem allOk_nil : AllOk [] := fun _ h => absurd h List.not_mem_nil

/-- Steps without a fault stay so in a row. -/
theorem AllOk.append (h : AllOk first) (h' : AllOk second) : AllOk (first ++ second) :=
  List.forall_mem_append.mpr ⟨h, h'⟩

theorem allOk_flatMap {Item : Type} {items : List Item} {tell : Item → List Step}
    (h : ∀ item ∈ items, AllOk (tell item)) : AllOk (items.flatMap tell) :=
  List.forall_mem_flatMap.mpr h

/-- An outcome without a fault gives a step without one, if it gives any. -/
theorem Sure.allOk_steps {outcome : Except Fault (Option Fact)} (h : Sure outcome) :
    AllOk (steps outcome) := by
  obtain ⟨_ | fact, rfl⟩ := h
  · exact allOk_nil
  · exact List.forall_mem_singleton.mpr (sure_ok fact)

/-- A reading whose steps do not fault comes to its end. -/
theorem AllOk.fault_ofSteps {steps : List Step} (h : AllOk steps) (language : Language) :
    (Reading.ofSteps language steps).fault = none := by
  induction steps with
  | nil => rfl
  | cons step rest ih =>
      obtain ⟨⟨fact, rfl⟩, hrest⟩ := List.forall_mem_cons.mp h
      exact ih hrest

end AllOk

/-! ## Names and texts -/

section Fits

variable {text : Text} {node : Node} (owner : String)

/-- The bytes of a node that fits are a text. -/
theorem sure_textOf (h : node.Fits text) : Sure (textOf (Utf8.encode text) (some node)) := by
  obtain ⟨part, hpart⟩ := Utf8.exists_decode_slice h.start h.stop
  refine ⟨part, ?_⟩
  show (Utf8.decode _).mapError Fault.undecodable = _
  rw [hpart]
  rfl

theorem sure_roleText (h : node.AllFit text) (role : String) :
    Sure (roleText (Utf8.encode text) node role) := by
  unfold roleText
  cases hchild : node.child? role with
  | none => exact sure_ok []
  | some child => exact sure_textOf (h.child? hchild).self

/-- A node that fits has a name. -/
theorem sure_plainName (h : node.AllFit text) : Sure (plainName (Utf8.encode text) node) := by
  unfold plainName
  split
  · exact (sure_textOf h.self).map _
  · split
    · exact sure_textOf h.self
    · exact sure_ok []

/-- A node that fits has a simple name, also if it is a generic type. -/
theorem sure_simpleName (h : node.AllFit text) : Sure (simpleName (Utf8.encode text) node) := by
  unfold simpleName
  split
  · rename_i hgeneric
    -- a generic type without a named child is what would be a fault, and no node that fits is one
    have hsome := h.self.generic hgeneric
    split
    · rename_i hnone
      rw [hnone] at hsome
      exact absurd hsome (by simp)
    · rename_i head _ hnamed
      exact sure_plainName (h.named (hnamed ▸ List.mem_cons_self))
  · exact sure_plainName h

/-! ## Members -/

/-- The types that a clause lists are read without a fault. -/
theorem allOk_clauseSteps (h : node.AllFit text) (relation : String → Fact) :
    AllOk (clauseSteps (Utf8.encode text) relation node) := by
  refine allOk_flatMap fun entry hentry => Sure.allOk_steps ?_
  obtain ⟨list, hlist, hmem⟩ := List.mem_flatMap.mp hentry
  exact (sure_simpleName ((h.ofType hlist).named hmem)).bind fun name => sure_ok _

/-- The type of a parameter is read without a fault. -/
theorem sure_parameterType (h : node.AllFit text) :
    Sure (parameterType (Utf8.encode text) node) := by
  unfold parameterType
  split
  · exact (sure_roleText h "type").map _
  · split
    · extract_lets types
      cases htypes : types with
      | nil => exact sure_ok none
      | cons first rest =>
          have hfirst : first ∈ types := htypes ▸ List.mem_cons_self
          exact (sure_textOf (h.named (List.mem_filter.mp hfirst).1).self).map _
    · exact sure_ok none

/-- A method is read without a fault, with its result and its parameters. -/
theorem sure_methodFact (h : node.AllFit text) :
    Sure (methodFact (Utf8.encode text) owner node) := by
  refine (sure_roleText h "name").bind fun name => (sure_roleText h "type").bind fun type => ?_
  refine Sure.bind (sure_mapM fun param hparam => sure_parameterType ?_) fun params => sure_ok _
  cases hparams : node.child? "parameters" with
  | none =>
      rw [hparams] at hparam
      exact absurd hparam List.not_mem_nil
  | some params =>
      rw [hparams] at hparam
      exact (h.child? hparams).named hparam

/-- The fields of a declaration are read without a fault. -/
theorem allOk_fieldSteps (h : node.AllFit text) :
    AllOk (fieldSteps (Utf8.encode text) owner node) := by
  unfold fieldSteps
  obtain ⟨type, htype⟩ := sure_roleText h "type"
  rw [htype]
  exact allOk_flatMap fun declarator hdeclarator =>
    ((sure_roleText (h.role hdeclarator) "name").map _).allOk_steps

mutual

/-- A body is read without a fault, with the blocks inside it. -/
theorem allOk_memberSteps : ∀ body : Node, body.AllFit text →
    AllOk (memberSteps (Utf8.encode text) owner body)
  | .mk _ children, h => by
      rw [memberSteps]
      exact allOk_memberStepsAmong children fun child hchild => h.child hchild

theorem allOk_memberStepsAmong : ∀ members : List Node, (∀ member ∈ members, member.AllFit text) →
    AllOk (memberStepsAmong (Utf8.encode text) owner members)
  | [], _ => allOk_nil
  | member :: rest, h => by
      obtain ⟨hmember, hrest⟩ := List.forall_mem_cons.mp h
      rw [memberStepsAmong]
      refine AllOk.append ?_ (allOk_memberStepsAmong rest hrest)
      split_ifs
      · exact allOk_nil
      · exact ((sure_roleText hmember "name").map _).allOk_steps
      · exact allOk_memberSteps member hmember
      · exact allOk_fieldSteps owner hmember
      · exact ((sure_methodFact owner hmember).map _).allOk_steps
      · exact allOk_nil

end

/-! ## Declarations -/

/-- The components of a record are read without a fault. -/
theorem allOk_componentSteps (h : node.AllFit text) :
    AllOk (componentSteps (Utf8.encode text) owner node) := by
  refine allOk_flatMap fun param hparam => Sure.allOk_steps ?_
  have hfit : param.AllFit text := by
    cases hparams : node.child? "parameters" with
    | none =>
        rw [hparams] at hparam
        exact absurd hparam List.not_mem_nil
    | some params =>
        rw [hparams] at hparam
        exact (h.child? hparams).ofType hparam
  exact (sure_roleText hfit "name").bind fun name =>
    (sure_roleText hfit "type").bind fun type => sure_ok _

mutual

/-- The type names of a tree that fits are nodes that fit. -/
theorem allFit_typeNames : ∀ root : Node, root.AllFit text →
    ∀ reference ∈ typeNames root, reference.AllFit text
  | .mk _ children, h => by
      rw [typeNames]
      exact allFit_typeNamesAmong children fun child hchild => h.child hchild

theorem allFit_typeNamesAmong : ∀ nodes : List Node, (∀ node ∈ nodes, node.AllFit text) →
    ∀ reference ∈ typeNamesAmong nodes, reference.AllFit text
  | [], _ => fun _ hmem => absurd hmem List.not_mem_nil
  | child :: rest, h => by
      obtain ⟨hchild, hrest⟩ := List.forall_mem_cons.mp h
      have hlater := allFit_typeNamesAmong rest hrest
      rw [typeNamesAmong]
      split
      · refine List.forall_mem_append.mpr ⟨?_, hlater⟩
        split
        · exact List.forall_mem_singleton.mpr hchild
        · exact allFit_typeNames child hchild
      · exact hlater

end

mutual

/-- The declarations of a tree that fits are nodes that fit. -/
theorem allFit_declarations : ∀ root : Node, root.AllFit text →
    ∀ declaration ∈ declarations root, declaration.AllFit text
  | .mk _ children, h => by
      rw [declarations]
      exact allFit_declarationsAmong children fun child hchild => h.child hchild

theorem allFit_declarationsAmong : ∀ nodes : List Node, (∀ node ∈ nodes, node.AllFit text) →
    ∀ declaration ∈ declarationsAmong nodes, declaration.AllFit text
  | [], _ => fun _ hmem => absurd hmem List.not_mem_nil
  | child :: rest, h => by
      obtain ⟨hchild, hrest⟩ := List.forall_mem_cons.mp h
      have hlater := allFit_declarationsAmong rest hrest
      rw [declarationsAmong]
      split
      · refine List.forall_mem_append.mpr ⟨List.forall_mem_append.mpr ⟨?_, ?_⟩, hlater⟩
        · split
          · exact List.forall_mem_singleton.mpr hchild
          · exact fun _ hmem => absurd hmem List.not_mem_nil
        · exact allFit_declarations child hchild
      · exact hlater

end

/-- What a declaration says of its type is read without a fault. -/
theorem allOk_contentSteps (h : node.AllFit text) :
    AllOk (contentSteps (Utf8.encode text) owner node) := by
  unfold contentSteps
  extract_lets superclass
  -- the superclass, the interfaces of an interface and of a class, components, members and uses
  refine AllOk.append (AllOk.append (AllOk.append (AllOk.append (AllOk.append ?_ ?_) ?_) ?_) ?_) ?_
  · refine allOk_flatMap fun base hbase => ((sure_simpleName ?_).map _).allOk_steps
    obtain ⟨clause, hclause, hhead⟩ := Option.bind_eq_some_iff.mp (Option.mem_toList.mp hbase)
    exact (h.child? hclause).named (List.mem_of_head? hhead)
  · exact allOk_flatMap fun clause hclause => allOk_clauseSteps (h.ofType hclause) _
  · exact allOk_flatMap fun clause hclause =>
      allOk_clauseSteps (h.child? (Option.mem_toList.mp hclause)) _
  · split
    · exact allOk_componentSteps owner h
    · exact allOk_nil
  · exact allOk_flatMap fun body hbody =>
      allOk_memberSteps owner body (h.child? (Option.mem_toList.mp hbody))
  · exact allOk_flatMap fun reference hreference =>
      ((sure_simpleName (allFit_typeNames node h reference hreference)).map _).allOk_steps

/-- A declaration is read without a fault. -/
theorem allOk_declarationSteps (h : node.AllFit text) :
    AllOk (declarationSteps (Utf8.encode text) node) := by
  obtain ⟨name, hname⟩ := sure_roleText h "name"
  unfold declarationSteps
  rw [hname]
  split
  · exact allOk_nil
  · rename_i heq
    exact absurd heq (by simp)
  · dsimp only
    split
    · exact allOk_nil
    · exact List.forall_mem_cons.mpr ⟨sure_ok _, allOk_contentSteps _ h⟩

/-- A tree whose nodes fit the text has an error, and nothing is read of it, or is read to its
end. -/
theorem read_of_allFit {root : Node} (h : root.AllFit text) :
    (read (Utf8.encode text) root).fault = root.errorLine?.map Fault.syntaxError ∧
      (root.errorLine?.isSome = true → (read (Utf8.encode text) root).findings = []) := by
  unfold read
  cases root.errorLine? with
  | some line => exact ⟨rfl, fun _ => rfl⟩
  | none =>
      refine ⟨AllOk.fault_ofSteps (allOk_flatMap fun declaration hmem => ?_) .java, by simp⟩
      exact allOk_declarationSteps (allFit_declarations root h declaration hmem)

end Fits

end Java

end ClassDiagram
