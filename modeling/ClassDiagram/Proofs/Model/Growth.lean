import ClassDiagram.Proofs.Model.Run
import Mathlib.Data.List.Find

/-!
# Growth

A model only grows. Whatever is found, the entities that are there stay in front, in their order and
with their kinds, and each of them keeps its members in front of those that are added. Relations are
kept as well; the one thing that a dependency can turn into is a base or an interface of the same
entity.

* `Entity.Grows`, `Model.Grows`: what is kept, as relations that are reflexive and transitive.
* `Entity.grows_gain`, `Model.grows_apply`: one feature, one finding.
* `Entity.Grows.refuses`: what an entity refuses, it refuses for good.
* `Model.Grows.find?`: a declared name is found again, with the entity grown.
* `Model.grows_applyAll`: a run of findings.
-/

namespace ClassDiagram

namespace Entity

/-- What an entity keeps while it grows. -/
structure Grows (before after : Entity) : Prop where
  name : after.name = before.name
  kind : after.kind = before.kind
  fields : before.fields <+: after.fields
  methods : before.methods <+: after.methods
  bases : ∀ name ∈ before.bases, name ∈ after.bases
  interfaces : ∀ name ∈ before.interfaces, name ∈ after.interfaces
  dependencies : ∀ name ∈ before.dependencies,
    name ∈ after.dependencies ∨ name ∈ after.bases ∨ name ∈ after.interfaces

namespace Grows

variable {before middle after : Entity}

@[refl] theorem refl (entity : Entity) : entity.Grows entity where
  name := rfl
  kind := rfl
  fields := List.prefix_rfl
  methods := List.prefix_rfl
  bases := fun _ h => h
  interfaces := fun _ h => h
  dependencies := fun _ h => Or.inl h

/-- An entity that grows twice grows. -/
theorem trans (first : before.Grows middle) (last : middle.Grows after) : before.Grows after where
  name := last.name.trans first.name
  kind := last.kind.trans first.kind
  fields := first.fields.trans last.fields
  methods := first.methods.trans last.methods
  bases := fun name h => last.bases name (first.bases name h)
  interfaces := fun name h => last.interfaces name (first.interfaces name h)
  dependencies := by
    intro name h
    rcases first.dependencies name h with hdependency | hbase | hinterface
    · exact last.dependencies name hdependency
    · exact Or.inr (Or.inl (last.bases name hbase))
    · exact Or.inr (Or.inr (last.interfaces name hinterface))

/-- What an entity refuses, it refuses for good: a member is known, and a relation leads nowhere or
is there in one role or another. -/
theorem refuses (h : before.Grows after) {feature : Feature}
    (hrefuses : before.accepts feature = false) : after.accepts feature = false := by
  have hother : ∀ name, after.isOther name = before.isOther name := by
    intro name
    unfold isOther
    rw [h.name]
  cases feature with
  | field value =>
      rw [← Bool.not_eq_true, accepts_field_iff, not_not] at hrefuses ⊢
      exact (h.fields.map Field.name).subset hrefuses
  | method value =>
      rw [← Bool.not_eq_true, accepts_method_iff, not_not] at hrefuses ⊢
      exact (h.methods.map Method.signature).subset hrefuses
  -- what is refused is there already, has no name or is the entity itself, and stays so
  | base name =>
      have := h.bases name
      grind [accepts]
  | interface name =>
      have := h.interfaces name
      grind [accepts]
  | dependency name =>
      have hbases := h.bases name
      have hinterfaces := h.interfaces name
      have hdependencies := h.dependencies name
      grind [accepts]

end Grows

/-- An entity grows when a feature is put into it. -/
theorem grows_put (entity : Entity) (feature : Feature) : entity.Grows (entity.put feature) := by
  have hrefl := Grows.refl entity
  cases feature with
  | field value => exact { hrefl with fields := List.prefix_append _ _ }
  | method value => exact { hrefl with methods := List.prefix_append _ _ }
  | base name =>
      refine { hrefl with bases := ?_, dependencies := ?_ }
      · exact fun _ h => NameSet.mem_insert.mpr (Or.inr h)
      -- the new base itself is the one dependency that is given up
      · intro other h
        by_cases hname : other = name
        · exact Or.inr (Or.inl (NameSet.mem_insert.mpr (Or.inl hname)))
        · exact Or.inl (NameSet.mem_erase.mpr ⟨h, hname⟩)
  | interface name =>
      refine { hrefl with interfaces := ?_, dependencies := ?_ }
      · exact fun _ h => NameSet.mem_insert.mpr (Or.inr h)
      · intro other h
        by_cases hname : other = name
        · exact Or.inr (Or.inr (NameSet.mem_insert.mpr (Or.inl hname)))
        · exact Or.inl (NameSet.mem_erase.mpr ⟨h, hname⟩)
  | dependency name =>
      exact { hrefl with
        dependencies := fun _ h => Or.inl (NameSet.mem_insert.mpr (Or.inr h)) }

/-- An entity grows when it gains a feature, or stays as it is. -/
theorem grows_gain (entity : Entity) (feature : Feature) : entity.Grows (entity.gain feature) := by
  unfold gain
  split
  · exact grows_put entity feature
  · rfl

/-- A feature that was offered is refused from then on. -/
theorem accepts_gain_self (entity : Entity) (feature : Feature) :
    (entity.gain feature).accepts feature = false := by
  by_cases haccepts : entity.accepts feature = true
  · rw [gain, if_pos haccepts]
    cases feature with
    | field value =>
        rw [← Bool.not_eq_true, accepts_field_iff, not_not]
        simp [put]
    | method value =>
        rw [← Bool.not_eq_true, accepts_method_iff, not_not]
        simp [put]
    | base name | interface name | dependency name => simp [put, accepts]
  · rw [gain, if_neg haccepts]
    exact Bool.eq_false_iff.mpr haccepts

end Entity

namespace Model

/-- What a model keeps while it grows: its entities stay in front, each of them grown, and whatever
is added behind them has a name that was not declared. -/
def Grows (before after : Model) : Prop :=
  ∃ (grow : Entity → Entity) (added : List Entity),
    after.entities = before.entities.map grow ++ added ∧
      (∀ entity ∈ before.entities, entity.Grows (grow entity)) ∧
      ∀ entity ∈ added, entity.name ∉ before.names

namespace Grows

variable {before middle after : Model}

@[refl] theorem refl (model : Model) : model.Grows model :=
  ⟨id, [], by simp, fun entity _ => .refl entity, fun _ h => absurd h List.not_mem_nil⟩

/-- A model that grows keeps its names, and adds others behind them. -/
theorem names_initial (h : before.Grows after) : before.names <+: after.names := by
  obtain ⟨grow, added, hentities, hgrow, _⟩ := h
  have hnames : (before.entities.map grow).map Entity.name = before.names := by
    rw [List.map_map]
    exact List.map_congr_left fun entity hentity => (hgrow entity hentity).name
  rw [← hnames, names, hentities, List.map_append]
  exact List.prefix_append _ _

/-- A model that grows twice grows. -/
theorem trans (first : before.Grows middle) (last : middle.Grows after) : before.Grows after := by
  have hnames : before.names ⊆ middle.names := first.names_initial.subset
  obtain ⟨grow, added, hmiddle, hgrow, hadded⟩ := first
  obtain ⟨grow', added', hafter, hgrow', hadded'⟩ := last
  refine ⟨grow' ∘ grow, added.map grow' ++ added', ?_, ?_, ?_⟩
  · rw [hafter, hmiddle, List.map_append, List.map_map, List.append_assoc]
  · intro entity hentity
    have hmem : grow entity ∈ middle.entities := by
      rw [hmiddle]
      exact List.mem_append_left _ (List.mem_map_of_mem hentity)
    exact (hgrow entity hentity).trans (hgrow' _ hmem)
  · intro entity hentity
    rcases List.mem_append.mp hentity with hold | hnew
    -- what was added first has only grown since, so that its name is still a new one
    · obtain ⟨earlier, hearlier, rfl⟩ := List.mem_map.mp hold
      have hmem : earlier ∈ middle.entities := by
        rw [hmiddle]
        exact List.mem_append_right _ hearlier
      rw [(hgrow' earlier hmem).name]
      exact hadded earlier hearlier
    · exact fun h => hadded' entity hnew (hnames h)

/-- An entity under a name that was declared is one of those that were there, grown. -/
theorem exists_of_mem (h : before.Grows after) {entity : Entity}
    (hentity : entity ∈ after.entities) (hname : entity.name ∈ before.names) :
    ∃ earlier ∈ before.entities, earlier.Grows entity := by
  obtain ⟨grow, added, hentities, hgrow, hadded⟩ := h
  rw [hentities] at hentity
  rcases List.mem_append.mp hentity with hold | hnew
  · obtain ⟨earlier, hearlier, rfl⟩ := List.mem_map.mp hold
    exact ⟨earlier, hearlier, hgrow earlier hearlier⟩
  · exact absurd hname (hadded entity hnew)

/-- A declared name is found again, with the entity grown. -/
theorem find? (h : before.Grows after) {name : String} {entity : Entity}
    (hfind : before.find? name = some entity) :
    ∃ grown, after.find? name = some grown ∧ entity.Grows grown := by
  obtain ⟨grow, added, hentities, hgrow, _⟩ := h
  have hmem : entity ∈ before.entities := List.mem_of_find?_eq_some hfind
  have hkept : (before.entities.map grow).find? (fun entity => entity.name = name) =
      some (grow entity) := by
    have hsame : ∀ other ∈ before.entities,
        ((fun entity : Entity => decide (entity.name = name)) ∘ grow) other =
          decide (other.name = name) := by
      intro other hother
      simp only [Function.comp_apply, (hgrow other hother).name]
    rw [List.find?_map, List.find?_congr hsame]
    exact congrArg (Option.map grow) hfind
  refine ⟨grow entity, ?_, hgrow entity hmem⟩
  rw [Model.find?, hentities, List.find?_append, hkept, Option.some_or]

end Grows

/-- A model grows when a name is declared in it. -/
theorem grows_declare (model : Model) (name : String) (kind : Kind) :
    model.Grows (model.declare name kind) := by
  unfold declare
  split
  · rfl
  · rename_i hnew
    refine ⟨id, [{ name := name, kind := kind }], by simp, fun entity _ => .refl entity, ?_⟩
    intro entity hentity
    rw [List.mem_singleton.mp hentity, ← contains_iff]
    exact hnew

/-- A model grows when a feature is offered to one of its entities. -/
theorem grows_offer (model : Model) (owner : String) (feature : Feature) :
    model.Grows (model.offer owner feature) := by
  refine ⟨fun entity => if entity.name = owner then entity.gain feature else entity, [],
    (List.append_nil _).symm, ?_, fun _ h => absurd h List.not_mem_nil⟩
  intro entity _
  dsimp only
  split
  · exact entity.grows_gain feature
  · rfl

/-- A model grows with every finding. -/
theorem grows_apply (model : Model) (finding : Finding) : model.Grows (finding.apply model) := by
  rcases apply_cases model finding with
    ⟨name, kind, _, _, _, heq⟩ | ⟨-, ⟨owner, feature, _, heq⟩ | heq⟩
  · rw [heq]
    exact model.grows_declare name kind
  · rw [heq]
    exact model.grows_offer owner feature
  · rw [heq]

/-- A model grows by every run of findings. -/
theorem grows_applyAll (model : Model) (findings : List Finding) :
    model.Grows (model.applyAll findings) := by
  induction findings generalizing model with
  | nil => exact .refl model
  | cons finding rest ih => exact (model.grows_apply finding).trans (ih (finding.apply model))

end Model

end ClassDiagram
