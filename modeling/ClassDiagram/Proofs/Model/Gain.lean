import ClassDiagram.Finding.Basic
import Mathlib.Data.List.Nodup

/-!
# What an entity gains from a run of features

An entity meets features one after the other, in whatever order a source tells them. This file says
what one feature does to each part of an entity, and from that what a whole run of features does:

* `Entity.Sound` is the rule that every feature keeps (`Sound.gain`);
* bases and interfaces, the two roles of `Role`, collect what was offered (`mem_names_gainAll`);
* dependencies collect what was offered and is no base or interface in the end, whichever came
  first (`mem_dependencies_gainAll`);
* fields are added in the order of their first offer, and an offer under a known name changes
  nothing (`fields_gainAll`), and so are methods (`methods_gainAll`): both collect in one way
  (`collected_gainAll`).
-/

namespace ClassDiagram

namespace Entity

/-- The rules of an entity: members are told apart, and every relation leads to another, named
entity, in one role only. -/
structure Sound (entity : Entity) : Prop where
  fields_distinct : (entity.fields.map Field.name).Nodup
  methods_distinct : (entity.methods.map Method.signature).Nodup
  bases_other : entity.name ∉ entity.bases ∧ "" ∉ entity.bases
  interfaces_other : entity.name ∉ entity.interfaces ∧ "" ∉ entity.interfaces
  dependencies_other : entity.name ∉ entity.dependencies ∧ "" ∉ entity.dependencies
  dependencies_apart : ∀ name ∈ entity.dependencies,
    name ∉ entity.bases ∧ name ∉ entity.interfaces

/-- A newly declared entity keeps the rules. -/
theorem sound_new (name : String) (kind : Kind) : Sound { name := name, kind := kind } where
  fields_distinct := List.nodup_nil
  methods_distinct := List.nodup_nil
  bases_other := ⟨NameSet.not_mem_empty _, NameSet.not_mem_empty _⟩
  interfaces_other := ⟨NameSet.not_mem_empty _, NameSet.not_mem_empty _⟩
  dependencies_other := ⟨NameSet.not_mem_empty _, NameSet.not_mem_empty _⟩
  dependencies_apart := fun name h => absurd h (NameSet.not_mem_empty name)

@[simp] theorem isOther_eq_true {entity : Entity} {name : String} :
    entity.isOther name = true ↔ name ≠ "" ∧ name ≠ entity.name := by
  simp [isOther]

/-! ## Members -/

/-- Adds a member behind the others unless one has its key. -/
def addNew {Member Key : Type} [DecidableEq Key] (key : Member → Key) (members : List Member)
    (member : Member) : List Member :=
  if key member ∈ members.map key then members else members ++ [member]

section AddNew

variable {Member Key : Type} [DecidableEq Key] {key : Member → Key}

/-- Adding keeps the keys apart. -/
theorem nodup_addNew {members : List Member} (h : (members.map key).Nodup) (member : Member) :
    ((addNew key members member).map key).Nodup := by
  unfold addNew
  split
  · exact h
  · rename_i hnew
    rw [List.map_append, List.map_singleton]
    exact List.nodup_append.mpr ⟨h, List.nodup_singleton _, by
      intro a ha b hb
      rw [List.mem_singleton.mp hb]
      rintro rfl
      exact hnew ha⟩

/-- Members with keys of their own are all added, in order. -/
theorem foldl_addNew_of_new {members offered : List Member}
    (h : ((members ++ offered).map key).Nodup) :
    offered.foldl (addNew key) members = members ++ offered := by
  induction offered generalizing members with
  | nil => rw [List.foldl_nil, List.append_nil]
  | cons member rest ih =>
      have hnew : key member ∉ members.map key := by
        intro hmem
        rw [List.map_append, List.map_cons] at h
        exact (List.nodup_append.mp h).2.2 _ hmem _ (List.mem_cons_self) rfl
      rw [List.foldl_cons, addNew, if_neg hnew, ih (by simpa using h), List.append_assoc,
        List.singleton_append]

/-- Members whose keys are there already add nothing. -/
theorem foldl_addNew_of_known {members offered : List Member}
    (h : ∀ member ∈ offered, key member ∈ members.map key) :
    offered.foldl (addNew key) members = members := by
  induction offered with
  | nil => rfl
  | cons member rest ih =>
      rw [List.foldl_cons, addNew, if_pos (h member List.mem_cons_self)]
      exact ih fun other hother => h other (List.mem_cons_of_mem _ hother)

/-- After some offers the keys are those that were there and those offered. -/
theorem mem_keys_foldl_addNew {members offered : List Member} {wanted : Key} :
    wanted ∈ (offered.foldl (addNew key) members).map key ↔
      wanted ∈ members.map key ∨ wanted ∈ offered.map key := by
  induction offered generalizing members with
  | nil => simp
  | cons member rest ih =>
      have hone : wanted ∈ (addNew key members member).map key ↔
          wanted ∈ members.map key ∨ wanted = key member := by
        unfold addNew
        split
        · rename_i hknown
          exact ⟨Or.inl, fun h => h.elim id fun heq => heq ▸ hknown⟩
        · simp
      rw [List.foldl_cons, ih, hone, List.map_cons, List.mem_cons, or_assoc]

end AddNew

/-- A field is new to an entity exactly if none of its fields has the name. -/
theorem accepts_field_iff {entity : Entity} {value : Field} :
    entity.accepts (.field value) = true ↔ value.name ∉ entity.fields.map Field.name := by
  simp only [accepts, field?, Option.isNone_iff_eq_none, List.find?_eq_none, List.mem_map,
    decide_eq_true_eq, not_exists, not_and]

/-- A method is new to an entity exactly if none of its methods has the signature. -/
theorem accepts_method_iff {entity : Entity} {value : Method} :
    entity.accepts (.method value) = true ↔
      value.signature ∉ entity.methods.map Method.signature := by
  simp only [accepts, method?, Option.isNone_iff_eq_none, List.find?_eq_none, List.mem_map,
    Method.signature, Prod.mk.injEq, decide_eq_true_eq, not_exists, not_and]

/-- The field that a feature offers. -/
def fieldOf? : Feature → Option Field
  | .field value => some value
  | _ => none

/-- The method that a feature offers. -/
def methodOf? : Feature → Option Method
  | .method value => some value
  | _ => none

/-- A gained field is added unless there is one of its name. -/
theorem fields_gain (entity : Entity) (feature : Feature) :
    (entity.gain feature).fields =
      (fieldOf? feature).toList.foldl (addNew Field.name) entity.fields := by
  unfold gain
  cases feature with
  | field value =>
      show _ = addNew Field.name entity.fields value
      by_cases h : value.name ∈ entity.fields.map Field.name
      · rw [addNew, if_pos h, if_neg (fun ha => accepts_field_iff.mp ha h)]
      · rw [addNew, if_neg h, if_pos (accepts_field_iff.mpr h)]
        rfl
  | _ => split <;> rfl

/-- A gained method is added unless there is one of its signature. -/
theorem methods_gain (entity : Entity) (feature : Feature) :
    (entity.gain feature).methods =
      (methodOf? feature).toList.foldl (addNew Method.signature) entity.methods := by
  unfold gain
  cases feature with
  | method value =>
      show _ = addNew Method.signature entity.methods value
      by_cases h : value.signature ∈ entity.methods.map Method.signature
      · rw [addNew, if_pos h, if_neg (fun ha => accepts_method_iff.mp ha h)]
      · rw [addNew, if_neg h, if_pos (accepts_method_iff.mpr h)]
        rfl
  | _ => split <;> rfl

/-! ## Relations -/

/-- The role in which an entity derives from another: that is its base or one of its interfaces. -/
inductive Role where
  | base
  | interface

namespace Role

/-- The names that stand in a role to an entity. -/
def names (entity : Entity) : Role → NameSet
  | base => entity.bases
  | interface => entity.interfaces

/-- The feature that offers a name in a role. -/
def feature (name : String) : Role → Feature
  | base => .base name
  | interface => .interface name

end Role

/-- A name stands in a role if it did before, or if it is offered in that role and is another one. -/
theorem mem_names_gain (role : Role) {entity : Entity} {feature : Feature} {name : String} :
    name ∈ role.names (entity.gain feature) ↔
      name ∈ role.names entity ∨ (feature = role.feature name ∧ entity.isOther name = true) := by
  -- A role changes only by a feature of its own; whether that is accepted is a matter of its name
  -- alone, so each case is settled by the definition of `accepts`.
  unfold gain
  cases role <;> cases feature <;> split <;>
    grind [accepts, put, NameSet.mem_insert, Role.names, Role.feature]

/-- A base is gained if it has a name and is not the entity itself. -/
theorem mem_bases_gain {entity : Entity} {feature : Feature} {name : String} :
    name ∈ (entity.gain feature).bases ↔
      name ∈ entity.bases ∨ (feature = .base name ∧ entity.isOther name = true) :=
  mem_names_gain .base

/-- An interface is gained if it has a name and is not the entity itself. -/
theorem mem_interfaces_gain {entity : Entity} {feature : Feature} {name : String} :
    name ∈ (entity.gain feature).interfaces ↔
      name ∈ entity.interfaces ∨ (feature = .interface name ∧ entity.isOther name = true) :=
  mem_names_gain .interface

/-- A dependency was there or is offered, and is neither base nor interface afterwards. -/
theorem mem_dependencies_gain {entity : Entity} (h : entity.Sound) {feature : Feature}
    {name : String} :
    name ∈ (entity.gain feature).dependencies ↔
      (name ∈ entity.dependencies ∨ (feature = .dependency name ∧ entity.isOther name = true)) ∧
        name ∉ (entity.gain feature).bases ∧ name ∉ (entity.gain feature).interfaces := by
  have hapart := h.dependencies_apart name
  have hother : name ∈ entity.dependencies → entity.isOther name = true := by
    intro hmem
    refine isOther_eq_true.mpr ⟨?_, ?_⟩
    · rintro rfl
      exact h.dependencies_other.2 hmem
    · rintro rfl
      exact h.dependencies_other.1 hmem
  rw [mem_bases_gain, mem_interfaces_gain]
  unfold gain
  cases feature <;> split <;> grind [accepts, put, NameSet.mem_insert, NameSet.mem_erase]

/-- Whether a name is another one does not change with what the entity gains. -/
@[simp] theorem isOther_gain (entity : Entity) (feature : Feature) (name : String) :
    (entity.gain feature).isOther name = entity.isOther name := by
  unfold isOther
  rw [name_gain]

/-- Every feature keeps the rules. -/
theorem Sound.gain {entity : Entity} (h : entity.Sound) (feature : Feature) :
    (entity.gain feature).Sound where
  fields_distinct := by
    rw [fields_gain]
    cases fieldOf? feature with
    | none => exact h.fields_distinct
    | some value => exact nodup_addNew h.fields_distinct value
  methods_distinct := by
    rw [methods_gain]
    cases methodOf? feature with
    | none => exact h.methods_distinct
    | some value => exact nodup_addNew h.methods_distinct value
  bases_other := by
    rw [name_gain, mem_bases_gain, mem_bases_gain]
    have := h.bases_other
    simp [this]
  interfaces_other := by
    rw [name_gain, mem_interfaces_gain, mem_interfaces_gain]
    have := h.interfaces_other
    simp [this]
  dependencies_other := by
    rw [name_gain, mem_dependencies_gain h, mem_dependencies_gain h]
    have := h.dependencies_other
    simp [this]
  dependencies_apart := fun _ hmem => ((mem_dependencies_gain h).mp hmem).2

/-! ## A run of features -/

/-- The entity after it has been offered some features, one after the other. -/
def gainAll (entity : Entity) (features : List Feature) : Entity := features.foldl gain entity

@[simp] theorem gainAll_nil (entity : Entity) : entity.gainAll [] = entity := rfl

@[simp] theorem gainAll_cons (entity : Entity) (feature : Feature) (rest : List Feature) :
    entity.gainAll (feature :: rest) = (entity.gain feature).gainAll rest := rfl

/-- Gaining goes on where it left off. -/
theorem gainAll_append (entity : Entity) (features others : List Feature) :
    entity.gainAll (features ++ others) = (entity.gainAll features).gainAll others :=
  List.foldl_append

/-- Gaining does not change the name. -/
@[simp] theorem name_gainAll (entity : Entity) (features : List Feature) :
    (entity.gainAll features).name = entity.name := by
  induction features generalizing entity with
  | nil => rfl
  | cons feature rest ih => rw [gainAll_cons, ih, name_gain]

/-- Gaining does not change the kind. -/
@[simp] theorem kind_gainAll (entity : Entity) (features : List Feature) :
    (entity.gainAll features).kind = entity.kind := by
  induction features generalizing entity with
  | nil => rfl
  | cons feature rest ih => rw [gainAll_cons, ih, kind_gain]

/-- What is collected from one feature by `addNew` is collected from a run in the order of the
offers. -/
theorem collected_gainAll {Member Key : Type} [DecidableEq Key] {key : Member → Key}
    {members : Entity → List Member} {pick? : Feature → Option Member}
    (hgain : ∀ entity feature, members (entity.gain feature) =
      (pick? feature).toList.foldl (addNew key) (members entity))
    (entity : Entity) (features : List Feature) :
    members (entity.gainAll features) =
      (features.filterMap pick?).foldl (addNew key) (members entity) := by
  induction features generalizing entity with
  | nil => rfl
  | cons feature rest ih =>
      rw [gainAll_cons, ih, hgain]
      cases h : pick? feature with
      | none => rw [List.filterMap_cons_none h]; rfl
      | some value => rw [List.filterMap_cons_some h]; rfl

/-- The fields after gaining are added one by one, in order. -/
theorem fields_gainAll (entity : Entity) (features : List Feature) :
    (entity.gainAll features).fields =
      (features.filterMap fieldOf?).foldl (addNew Field.name) entity.fields :=
  collected_gainAll fields_gain entity features

/-- The methods after gaining are added one by one, in order. -/
theorem methods_gainAll (entity : Entity) (features : List Feature) :
    (entity.gainAll features).methods =
      (features.filterMap methodOf?).foldl (addNew Method.signature) entity.methods :=
  collected_gainAll methods_gain entity features

/-- After a run a name stands in a role if it did before, or if the run offers it in that role. -/
theorem mem_names_gainAll (role : Role) {entity : Entity} {features : List Feature}
    {name : String} :
    name ∈ role.names (entity.gainAll features) ↔
      name ∈ role.names entity ∨ (role.feature name ∈ features ∧ entity.isOther name = true) := by
  induction features generalizing entity with
  | nil => simp
  | cons feature rest ih =>
      rw [gainAll_cons, ih, mem_names_gain, isOther_gain, List.mem_cons]
      grind

/-- The bases after gaining are the old ones and the named others. -/
theorem mem_bases_gainAll {entity : Entity} {features : List Feature} {name : String} :
    name ∈ (entity.gainAll features).bases ↔
      name ∈ entity.bases ∨ (Feature.base name ∈ features ∧ entity.isOther name = true) :=
  mem_names_gainAll .base

/-- The interfaces after gaining are the old ones and the named others. -/
theorem mem_interfaces_gainAll {entity : Entity} {features : List Feature} {name : String} :
    name ∈ (entity.gainAll features).interfaces ↔
      name ∈ entity.interfaces ∨
        (Feature.interface name ∈ features ∧ entity.isOther name = true) :=
  mem_names_gainAll .interface

/-- The dependencies after a run: what was one or was offered, unless it has become a base or an
interface by the end. -/
theorem mem_dependencies_gainAll {entity : Entity} (h : entity.Sound) {features : List Feature}
    {name : String} :
    name ∈ (entity.gainAll features).dependencies ↔
      (name ∈ entity.dependencies ∨
          (Feature.dependency name ∈ features ∧ entity.isOther name = true)) ∧
        name ∉ (entity.gainAll features).bases ∧
        name ∉ (entity.gainAll features).interfaces := by
  induction features generalizing entity with
  | nil =>
      have := h.dependencies_apart name
      simp only [gainAll_nil, List.not_mem_nil, false_and, or_false]
      exact ⟨fun hmem => ⟨hmem, this hmem⟩, fun hmem => hmem.1⟩
  | cons feature rest ih =>
      have hbase : name ∈ (entity.gain feature).bases →
          name ∈ ((entity.gain feature).gainAll rest).bases :=
        fun hmem => mem_bases_gainAll.mpr (Or.inl hmem)
      have hinterface : name ∈ (entity.gain feature).interfaces →
          name ∈ ((entity.gain feature).gainAll rest).interfaces :=
        fun hmem => mem_interfaces_gainAll.mpr (Or.inl hmem)
      rw [gainAll_cons, ih (h.gain feature), mem_dependencies_gain h, isOther_gain, List.mem_cons]
      -- what is a base or an interface after the first feature is one in the end
      grind

/-- Features that are offered among others add the fields among them. -/
theorem mem_fields_gainAll_among {entity : Entity} {before offered after : List Feature}
    {name : String} :
    name ∈ (entity.gainAll (before ++ (offered ++ after))).fields.map Field.name ↔
      name ∈ (entity.gainAll (before ++ after)).fields.map Field.name ∨
        name ∈ (offered.filterMap fieldOf?).map Field.name := by
  simp only [fields_gainAll, mem_keys_foldl_addNew, List.filterMap_append, List.map_append,
    List.mem_append]
  tauto

/-- Features that are offered among others, none of them a base or an interface, add what can be a
dependency without them. -/
theorem mem_dependencies_gainAll_among {entity : Entity} (h : entity.Sound)
    {before offered after : List Feature}
    (hoffered : ∀ name, Feature.base name ∉ offered ∧ Feature.interface name ∉ offered)
    {name : String} :
    name ∈ (entity.gainAll (before ++ (offered ++ after))).dependencies ↔
      name ∈ (entity.gainAll (before ++ after)).dependencies ∨
        (Feature.dependency name ∈ offered ∧ entity.isOther name = true ∧
          name ∉ (entity.gainAll (before ++ after)).bases ∧
          name ∉ (entity.gainAll (before ++ after)).interfaces) := by
  have hno := hoffered name
  simp only [mem_dependencies_gainAll h, mem_bases_gainAll, mem_interfaces_gainAll, List.mem_append,
    hno.1, hno.2, false_or]
  tauto

end Entity

end ClassDiagram
