import ClassDiagram.Proofs.Model.Owned
import Mathlib.Data.List.Induction
import Mathlib.Data.Prod.Basic

/-!
# The edges of a model

An edge leads from an entity to a name that it is related to. Edges are listed entity by entity, in
the order in which the entities were first declared, and those of one entity by the name at their
other end. So no edge is listed twice, whatever sources an entity was merged from.

* `Model.names_applyAll`: the names of a model stand in the order of their first declaration.
* `Model.related`: the pairs of an entity and a name related to it, in order (`pairwise_related`).
* `Model.WellDrawn`: the rules of edges.
* `Model.wellDrawn_ofContributions`: the edges after a run of contributions.
-/

namespace ClassDiagram

/-- The names that some findings declare, each as often as it is declared. -/
def declaredNames (findings : List Finding) : List String :=
  findings.filterMap fun finding => finding.fact.declared?

namespace Model

/-! ## The order of declaration -/

/-- A finding adds the name that it declares, unless it is there. -/
theorem names_apply (model : Model) (finding : Finding) :
    (finding.apply model).names =
      finding.fact.declared?.toList.foldl (Entity.addNew id) model.names := by
  rcases apply_cases model finding with ⟨name, kind, word, offset, hfact, heq⟩ | ⟨hno, hrest⟩
  · rw [heq, hfact, names_declare]
    show _ = Entity.addNew id model.names name
    rw [Entity.addNew, List.map_id, id]
  · rw [Fact.declared?_eq_none hno]
    rcases hrest with ⟨owner, feature, _, heq⟩ | heq
    · rw [heq, names_offer]
      rfl
    · rw [heq]
      rfl

/-- A run adds the names that it declares, each at its first declaration. -/
theorem names_applyAll (model : Model) (findings : List Finding) :
    (model.applyAll findings).names =
      (declaredNames findings).foldl (Entity.addNew id) model.names := by
  induction findings generalizing model with
  | nil => rfl
  | cons finding rest ih =>
      have hcons : declaredNames (finding :: rest) =
          finding.fact.declared?.toList ++ declaredNames rest := by
        unfold declaredNames
        rw [List.filterMap_cons]
        cases finding.fact.declared? <;> rfl
      show (applyAll (finding.apply model) rest).names = _
      rw [ih, names_apply, hcons, List.foldl_append]

/-- Names that are added once each stand in the order of their first occurrence. -/
theorem pairwise_idxOf_addNew (declared : List String) :
    (declared.foldl (Entity.addNew id) []).Pairwise fun name later =>
      declared.idxOf name < declared.idxOf later := by
  induction declared using List.reverseRecOn with
  | nil => exact .nil
  | append_singleton earlier name ih =>
      have hmem : ∀ other ∈ earlier.foldl (Entity.addNew id) [], other ∈ earlier := by
        intro other hother
        have hkeys : other ∈ (earlier.foldl (Entity.addNew id) []).map id := by rwa [List.map_id]
        simpa using Entity.mem_keys_foldl_addNew.mp hkeys
      -- one more name at the end does not change where the others occur first
      have hold : (earlier.foldl (Entity.addNew id) []).Pairwise fun other later =>
          (earlier ++ [name]).idxOf other < (earlier ++ [name]).idxOf later := by
        refine ih.imp_of_mem fun hother hlater hlt => ?_
        rwa [List.idxOf_append_of_mem (hmem _ hother), List.idxOf_append_of_mem (hmem _ hlater)]
      rw [List.foldl_append, List.foldl_cons, List.foldl_nil, Entity.addNew]
      split
      · exact hold
      · rename_i hnew
        have hnotmem : name ∉ earlier := fun h =>
          hnew (Entity.mem_keys_foldl_addNew.mpr (Or.inr (by rwa [List.map_id])))
        refine List.pairwise_append.mpr ⟨hold, List.pairwise_singleton _ _, ?_⟩
        intro other hother last hlast
        rw [List.mem_singleton.mp hlast, List.idxOf_append_of_mem (hmem _ hother),
          List.idxOf_append_of_notMem hnotmem]
        exact Nat.lt_of_lt_of_le (List.idxOf_lt_length_of_mem (hmem _ hother))
          (Nat.le_add_right _ _)

/-! ## Related names -/

/-- Whether one pair comes before another: its first name is declared earlier, or is the same and
the second name is the smaller one. -/
def Precedes (declared : List String) (pair later : String × String) : Prop :=
  declared.idxOf pair.1 < declared.idxOf later.1 ∨ pair.1 = later.1 ∧ pair.2 < later.2

theorem not_precedes_self (declared : List String) (pair : String × String) :
    ¬ Precedes declared pair pair := by
  rintro (hlt | ⟨-, hlt⟩)
  · exact Nat.lt_irrefl _ hlt
  · exact String.lt_irrefl _ hlt

/-- Pairs in order are distinct. -/
theorem nodup_of_pairwise_precedes {declared : List String} {pairs : List (String × String)}
    (h : pairs.Pairwise (Precedes declared)) : pairs.Nodup := by
  refine h.imp ?_
  rintro pair _ hprecedes rfl
  exact not_precedes_self declared pair hprecedes

/-- The pairs of an entity's name and a name that it is related to. -/
def related (model : Model) (names : Entity → List String) : List (String × String) :=
  model.entities.flatMap fun entity => (names entity).map fun name => (entity.name, name)

section Related

variable {model : Model} {names : Entity → List String}

/-- The pairs of a relation are those of its entities. -/
theorem mem_related (h : model.Sound) {owner name : String} :
    (owner, name) ∈ model.related names ↔
      ∃ entity, model.find? owner = some entity ∧ name ∈ names entity := by
  simp only [related, List.mem_flatMap, List.mem_map, Prod.mk.injEq]
  constructor
  · rintro ⟨entity, hentity, _, hname, rfl, rfl⟩
    exact ⟨entity, h.find?_name hentity, hname⟩
  · rintro ⟨entity, hfind, hname⟩
    have howner : entity.name = owner := by simpa using List.find?_some hfind
    exact ⟨entity, List.mem_of_find?_eq_some hfind, name, hname, howner, rfl⟩

/-- Where names are listed in order for each entity, all pairs are listed in order. -/
theorem pairwise_related {declared : List String}
    (hdeclared : model.names.Pairwise fun name later =>
      declared.idxOf name < declared.idxOf later)
    (hnames : ∀ entity, (names entity).Pairwise (· < ·)) :
    (model.related names).Pairwise (Precedes declared) := by
  refine List.pairwise_flatMap.mpr ⟨fun entity _ => ?_, ?_⟩
  · refine List.pairwise_map.mpr ((hnames entity).imp fun hlt => ?_)
    exact Or.inr ⟨rfl, hlt⟩
  · refine (List.pairwise_map.mp hdeclared).imp fun hlt => ?_
    intro pair hpair later hlater
    obtain ⟨_, -, rfl⟩ := List.mem_map.mp hpair
    obtain ⟨_, -, rfl⟩ := List.mem_map.mp hlater
    exact Or.inl hlt

end Related

/-! ## Edges -/

section Edges

variable {model : Model}

theorem uses_eq_related (model : Model) :
    model.uses = model.related fun entity => entity.dependencies.toList.filter model.contains := rfl

/-- An inheritance is written from the base to its heir. -/
theorem inheritances_eq_related (model : Model) :
    model.inheritances = (model.related fun entity => entity.bases.toList).map Prod.swap := by
  simp only [inheritances, related, List.map_flatMap, List.map_map]
  rfl

/-- A realization is written from the interface to its owner. -/
theorem realizations_eq_related (model : Model) :
    model.realizations = (model.related fun entity => entity.interfaces.toList).map Prod.swap := by
  simp only [realizations, related, List.map_flatMap, List.map_map]
  rfl

theorem mem_map_swap {pairs : List (String × String)} {first second : String} :
    (first, second) ∈ pairs.map Prod.swap ↔ (second, first) ∈ pairs := by
  simp

/-- The inheritances are the bases of the entities, whether declared or not. -/
theorem Sound.mem_inheritances (h : model.Sound) {base heir : String} :
    (base, heir) ∈ model.inheritances ↔
      ∃ entity, model.find? heir = some entity ∧ base ∈ entity.bases := by
  rw [inheritances_eq_related, mem_map_swap, mem_related h]
  rfl

/-- The realizations are the interfaces of the entities, whether declared or not. -/
theorem Sound.mem_realizations (h : model.Sound) {interface owner : String} :
    (interface, owner) ∈ model.realizations ↔
      ∃ entity, model.find? owner = some entity ∧ interface ∈ entity.interfaces := by
  rw [realizations_eq_related, mem_map_swap, mem_related h]
  rfl

/-- The uses are the dependencies of the entities among those that are declared. -/
theorem Sound.mem_uses (h : model.Sound) {user used : String} :
    (user, used) ∈ model.uses ↔
      user ∈ model.names ∧ used ∈ model.names ∧
        ∃ entity, model.find? user = some entity ∧ used ∈ entity.dependencies := by
  rw [uses_eq_related, mem_related h]
  simp only [List.mem_filter, contains_iff]
  constructor
  · rintro ⟨entity, hfind, hmem, hused⟩
    refine ⟨contains_iff.mp ?_, hused, entity, hfind, hmem⟩
    rw [contains, hfind, Option.isSome_some]
  · rintro ⟨-, hused, entity, hfind, hmem⟩
    exact ⟨entity, hfind, hmem, hused⟩

/-- What is found under a name has that name and keeps the rules of entities. -/
theorem Sound.found (h : model.Sound) {name : String} {entity : Entity}
    (hfind : model.find? name = some entity) : entity.name = name ∧ entity.Sound :=
  ⟨by simpa using List.find?_some hfind, h.of_find? hfind⟩

end Edges

/-- The rules of the edges of a model whose names were declared in an order: what is listed, how
often, in which order, and what never is. -/
structure WellDrawn (model : Model) (declared : List String) : Prop where
  uses_distinct : model.uses.Nodup
  uses_ordered : model.uses.Pairwise (Precedes declared)
  mem_uses : ∀ user used, (user, used) ∈ model.uses ↔
    user ∈ model.names ∧ used ∈ model.names ∧
      ∃ entity, model.find? user = some entity ∧ used ∈ entity.dependencies
  uses_other : ∀ name, (name, name) ∉ model.uses
  uses_apart : ∀ user used, (user, used) ∈ model.uses →
    (used, user) ∉ model.inheritances ∧ (used, user) ∉ model.realizations
  inheritances_distinct : model.inheritances.Nodup
  inheritances_other : ∀ name, (name, name) ∉ model.inheritances
  mem_inheritances : ∀ base heir, (base, heir) ∈ model.inheritances ↔
    ∃ entity, model.find? heir = some entity ∧ base ∈ entity.bases
  realizations_distinct : model.realizations.Nodup
  realizations_other : ∀ name, (name, name) ∉ model.realizations
  mem_realizations : ∀ interface owner, (interface, owner) ∈ model.realizations ↔
    ∃ entity, model.find? owner = some entity ∧ interface ∈ entity.interfaces

/-- A sound model whose names stand in the order of declaration is well drawn. -/
theorem Sound.wellDrawn {model : Model} (h : model.Sound) {declared : List String}
    (hdeclared : model.names.Pairwise fun name later =>
      declared.idxOf name < declared.idxOf later) : model.WellDrawn declared where
  uses_distinct := nodup_of_pairwise_precedes
    (pairwise_related hdeclared fun entity => entity.dependencies.ascending.filter _)
  uses_ordered := pairwise_related hdeclared fun entity => entity.dependencies.ascending.filter _
  mem_uses := fun _ _ => h.mem_uses
  uses_other := by
    intro name hmem
    obtain ⟨-, -, entity, hfind, hself⟩ := h.mem_uses.mp hmem
    obtain ⟨rfl, hsound⟩ := h.found hfind
    exact hsound.dependencies_other.1 hself
  uses_apart := by
    intro user used hmem
    obtain ⟨-, -, entity, hfind, hused⟩ := h.mem_uses.mp hmem
    have hapart := (h.of_find? hfind).dependencies_apart used hused
    rw [h.mem_inheritances, h.mem_realizations]
    simpa only [hfind, Option.some.injEq, exists_eq_left'] using hapart
  inheritances_distinct := by
    rw [inheritances_eq_related]
    exact (nodup_of_pairwise_precedes
      (pairwise_related hdeclared fun entity => entity.bases.ascending)).map Prod.swap_injective
  inheritances_other := by
    intro name hmem
    obtain ⟨entity, hfind, hself⟩ := h.mem_inheritances.mp hmem
    obtain ⟨rfl, hsound⟩ := h.found hfind
    exact hsound.bases_other.1 hself
  mem_inheritances := fun _ _ => h.mem_inheritances
  realizations_distinct := by
    rw [realizations_eq_related]
    exact (nodup_of_pairwise_precedes
      (pairwise_related hdeclared fun entity => entity.interfaces.ascending)).map
        Prod.swap_injective
  realizations_other := by
    intro name hmem
    obtain ⟨entity, hfind, hself⟩ := h.mem_realizations.mp hmem
    obtain ⟨rfl, hsound⟩ := h.found hfind
    exact hsound.interfaces_other.1 hself
  mem_realizations := fun _ _ => h.mem_realizations

/-- For every run of contributions, in any languages and also with readings that break off: uses are
listed exactly for dependencies between declared names, once each, by the first declaration of the
user and then by what is used; inheritances and realizations are listed once each for every base and
interface, declared or not; no edge leads from a name to itself, and no use doubles another edge. -/
theorem wellDrawn_ofContributions (contributions : List Contribution) :
    (ofContributions contributions).WellDrawn
      (declaredNames (contributions.flatMap Contribution.findings)) := by
  rw [ofContributions_eq]
  refine (sound_empty.applyAll _).wellDrawn ?_
  rw [names_applyAll]
  exact pairwise_idxOf_addNew _

end Model

end ClassDiagram
