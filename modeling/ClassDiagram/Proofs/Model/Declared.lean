import ClassDiagram.Proofs.Model.Gain

/-!
# A model of one declaration

A source that declares a single class tells its name first, then what it derives from, then its
members, possibly some of them twice. The model is then that one class.

* `ClassMember`: a field, method or constructor, with the names that its types use.
* `Entity.ofClass`: the class with given relations and members.
* `Entity.gainAll_class`: a run of features makes exactly that class.
* `Model.applyAll_declared`: a declaration and offers to it make a model of one entity.
-/

namespace ClassDiagram

/-- A field or method, with the names that its types use, or a constructor, of which only these
names are told. -/
inductive ClassMember where
  | field (value : Field) (used : List String)
  | method (value : Method) (used : List String)
  | initializer (used : List String)

namespace ClassMember

/-- The field that a member is. -/
def field? : ClassMember → Option Field
  | field value _ => some value
  | method _ _ | initializer _ => none

/-- The method that a member is. -/
def method? : ClassMember → Option Method
  | method value _ => some value
  | field _ _ | initializer _ => none

/-- The names that the types of a member use. -/
def used : ClassMember → List String
  | field _ names | method _ names | initializer names => names

/-- The feature that a member is. -/
def feature? : ClassMember → Option Feature
  | field value _ => some (.field value)
  | method value _ => some (.method value)
  | initializer _ => none

/-- The features that a member offers: itself, and what its types use. -/
def features (member : ClassMember) : List Feature :=
  member.feature?.toList ++ member.used.map Feature.dependency

end ClassMember

namespace Entity

/-- A class with its relations and members. Of the names that its types use, those count as
dependencies that are neither its own nor related to it already. -/
def ofClass (name : String) (bases interfaces : List String) (members : List ClassMember) :
    Entity where
  name := name
  kind := .cls
  fields := members.filterMap ClassMember.field?
  methods := members.filterMap ClassMember.method?
  bases := .ofList bases
  interfaces := .ofList interfaces
  dependencies := .ofList ((members.flatMap ClassMember.used).filter fun other =>
    other ≠ "" ∧ other ≠ name ∧ other ∉ bases ∧ other ∉ interfaces)

/-- The features of a class in the order in which they are told. -/
def classFeatures (bases interfaces : List String) (members : List ClassMember) : List Feature :=
  bases.map Feature.base ++ (interfaces.map Feature.interface ++
    members.flatMap ClassMember.features)

section ClassFeatures

variable {bases interfaces : List String} {members : List ClassMember} {name : String}

/-- What is picked from the members alone, is picked in their order. -/
theorem filterMap_classFeatures {Part : Type} {pick? : Feature → Option Part}
    (hbase : ∀ other, pick? (.base other) = none)
    (hinterface : ∀ other, pick? (.interface other) = none)
    (hdependency : ∀ other, pick? (.dependency other) = none) :
    (classFeatures bases interfaces members).filterMap pick? =
      members.filterMap fun member => member.feature?.bind pick? := by
  have hnone : ∀ (names : List String) {relation : String → Feature},
      (∀ other, pick? (relation other) = none) → (names.map relation).filterMap pick? = [] := by
    intro names relation hrelation
    rw [List.filterMap_map]
    exact List.filterMap_eq_nil_iff.mpr fun other _ => hrelation other
  unfold classFeatures
  rw [List.filterMap_append, List.filterMap_append, hnone _ hbase, hnone _ hinterface,
    List.nil_append, List.nil_append]
  induction members with
  | nil => rfl
  | cons member rest ih =>
      rw [List.flatMap_cons, List.filterMap_append, ih, ClassMember.features,
        List.filterMap_append, hnone _ hdependency, List.append_nil, List.filterMap_cons]
      cases member.feature? with
      | none => rfl
      | some feature =>
          rw [Option.toList_some, List.filterMap_cons, Option.bind_some]
          cases pick? feature <;> rfl

/-- The fields among a class's features are those of its members. -/
theorem filterMap_fieldOf?_classFeatures :
    (classFeatures bases interfaces members).filterMap fieldOf? =
      members.filterMap ClassMember.field? := by
  rw [filterMap_classFeatures (fun _ => rfl) (fun _ => rfl) fun _ => rfl]
  refine List.filterMap_congr fun member _ => ?_
  cases member <;> rfl

/-- The methods among a class's features are those of its members. -/
theorem filterMap_methodOf?_classFeatures :
    (classFeatures bases interfaces members).filterMap methodOf? =
      members.filterMap ClassMember.method? := by
  rw [filterMap_classFeatures (fun _ => rfl) (fun _ => rfl) fun _ => rfl]
  refine List.filterMap_congr fun member _ => ?_
  cases member <;> rfl

/-- A relation among the features of a member is a use. -/
theorem mem_features_iff {member : ClassMember} :
    (Feature.base name ∉ member.features ∧ Feature.interface name ∉ member.features) ∧
      (Feature.dependency name ∈ member.features ↔ name ∈ member.used) := by
  cases member <;> simp [ClassMember.features, ClassMember.feature?, ClassMember.used]

/-- The bases among a class's features are its bases. -/
theorem base_mem_classFeatures :
    Feature.base name ∈ classFeatures bases interfaces members ↔ name ∈ bases := by
  have hmembers : Feature.base name ∉ members.flatMap ClassMember.features := by
    intro hmem
    obtain ⟨member, _, hfeature⟩ := List.mem_flatMap.mp hmem
    exact mem_features_iff.1.1 hfeature
  simp [classFeatures, hmembers]

/-- The interfaces among a class's features are its interfaces. -/
theorem interface_mem_classFeatures :
    Feature.interface name ∈ classFeatures bases interfaces members ↔ name ∈ interfaces := by
  have hmembers : Feature.interface name ∉ members.flatMap ClassMember.features := by
    intro hmem
    obtain ⟨member, _, hfeature⟩ := List.mem_flatMap.mp hmem
    exact mem_features_iff.1.2 hfeature
  simp [classFeatures, hmembers]

/-- The dependencies among a class's features are what its members use. -/
theorem dependency_mem_classFeatures :
    Feature.dependency name ∈ classFeatures bases interfaces members ↔
      name ∈ members.flatMap ClassMember.used := by
  simp [classFeatures, mem_features_iff.2]

end ClassFeatures

/-- Two entities are equal if they agree in all that is known of them. -/
theorem eq_of_parts {entity other : Entity} (hname : entity.name = other.name)
    (hkind : entity.kind = other.kind) (hfields : entity.fields = other.fields)
    (hmethods : entity.methods = other.methods) (hbases : entity.bases = other.bases)
    (hinterfaces : entity.interfaces = other.interfaces)
    (hdependencies : entity.dependencies = other.dependencies) : entity = other := by
  cases entity
  cases other
  simp only at *
  subst hname hkind hfields hmethods hbases hinterfaces hdependencies
  rfl

/-- Members with keys of their own are added in order, and nothing by telling some again. -/
theorem foldl_addNew_again {Member Key : Type} [DecidableEq Key] {key : Member → Key}
    {members again : List Member} (hdistinct : (members.map key).Nodup)
    (hagain : ∀ member ∈ again, member ∈ members) :
    (members ++ again).foldl (addNew key) [] = members := by
  have hall : members.foldl (addNew key) [] = members :=
    foldl_addNew_of_new (by simpa using hdistinct)
  rw [List.foldl_append, hall]
  exact foldl_addNew_of_known fun member hmember => List.mem_map_of_mem (hagain member hmember)

theorem filterMap_subset_of_subset {Member Part : Type} {part? : Member → Option Part}
    {members again : List Member} (h : ∀ member ∈ again, member ∈ members) {part : Part}
    (hpart : part ∈ again.filterMap part?) : part ∈ members.filterMap part? := by
  obtain ⟨member, hmember, heq⟩ := List.mem_filterMap.mp hpart
  exact List.mem_filterMap.mpr ⟨member, h member hmember, heq⟩

/-- A new class that is told what it derives from, then all of its members, and then some of them
again. -/
theorem gainAll_class {name : String} {bases interfaces : List String}
    {members again : List ClassMember} (hagain : ∀ member ∈ again, member ∈ members)
    (hfields : ((members.filterMap ClassMember.field?).map Field.name).Nodup)
    (hmethods : ((members.filterMap ClassMember.method?).map Method.signature).Nodup)
    (hother : ∀ other ∈ bases ++ interfaces, other ≠ "" ∧ other ≠ name) :
    ({ name := name } : Entity).gainAll (classFeatures bases interfaces (members ++ again)) =
      ofClass name bases interfaces members := by
  have hsets : ∀ others : List String, (∀ other ∈ others, other ≠ "" ∧ other ≠ name) → ∀ other,
      (other ∈ others ∧ ({ name := name } : Entity).isOther other = true) ↔ other ∈ others := by
    intro others hall other
    rw [isOther_eq_true]
    exact ⟨fun h => h.1, fun h => ⟨h, hall other h⟩⟩
  have hbases : ∀ other, other ∈ (({ name := name } : Entity).gainAll
      (classFeatures bases interfaces (members ++ again))).bases ↔ other ∈ bases := by
    intro other
    rw [mem_bases_gainAll, base_mem_classFeatures,
      hsets bases (fun other h => hother other (List.mem_append_left _ h))]
    exact or_iff_right (NameSet.not_mem_empty _)
  have hinterfaces : ∀ other, other ∈ (({ name := name } : Entity).gainAll
      (classFeatures bases interfaces (members ++ again))).interfaces ↔ other ∈ interfaces := by
    intro other
    rw [mem_interfaces_gainAll, interface_mem_classFeatures,
      hsets interfaces (fun other h => hother other (List.mem_append_right _ h))]
    exact or_iff_right (NameSet.not_mem_empty _)
  -- told again, a member uses nothing new
  have hused : ∀ other, other ∈ (members ++ again).flatMap ClassMember.used ↔
      other ∈ members.flatMap ClassMember.used := by
    intro other
    simp only [List.mem_flatMap, List.mem_append]
    exact ⟨fun ⟨member, hmember, h⟩ => ⟨member, hmember.elim id (hagain member), h⟩,
      fun ⟨member, hmember, h⟩ => ⟨member, Or.inl hmember, h⟩⟩
  refine eq_of_parts (name_gainAll _ _) (kind_gainAll _ _) ?_ ?_ ?_ ?_ ?_
  · rw [fields_gainAll, filterMap_fieldOf?_classFeatures, List.filterMap_append]
    refine foldl_addNew_again hfields ?_
    exact fun field hfield => filterMap_subset_of_subset hagain hfield
  · rw [methods_gainAll, filterMap_methodOf?_classFeatures, List.filterMap_append]
    refine foldl_addNew_again hmethods ?_
    exact fun method hmethod => filterMap_subset_of_subset hagain hmethod
  · ext other
    rw [hbases]
    exact NameSet.mem_ofList.symm
  · ext other
    rw [hinterfaces]
    exact NameSet.mem_ofList.symm
  -- what the class derives from is no dependency, even if a member uses it
  · ext other
    rw [mem_dependencies_gainAll (sound_new name .cls), hbases, hinterfaces,
      dependency_mem_classFeatures, hused, isOther_eq_true]
    show _ ↔ other ∈ NameSet.ofList _
    rw [NameSet.mem_ofList, List.mem_filter, decide_eq_true_eq]
    have hempty : ¬ other ∈ ({ name := name } : Entity).dependencies := NameSet.not_mem_empty _
    tauto

end Entity

/-- The fact that offers a feature to an entity. -/
def Feature.toFact (owner : String) : Feature → Fact
  | .field value => .field owner value.name value.type
  | .method value => .method owner value
  | .base name => .inherits owner name
  | .interface name => .realizes owner name
  | .dependency name => .uses owner name

/-- The names that a type expression uses are offered as dependencies. -/
theorem usesOf_eq_map_toFact (language : Language) (owner : String) (expr : Text) :
    Fact.usesOf language owner expr =
      ((language.dialect.usedNames expr).map Feature.dependency).map (Feature.toFact owner) := by
  rw [List.map_map]
  rfl

/-- What is told of a field is what a member offers that is this field. -/
theorem ofField_eq_map_toFact (language : Language) (owner : String) (name type : Text) :
    Fact.ofField language owner name type =
      (ClassMember.field ⟨String.ofList name, String.ofList type⟩
        (language.dialect.usedNames type)).features.map (Feature.toFact owner) := by
  rw [Fact.ofField, usesOf_eq_map_toFact]
  rfl

/-- What is told of a method is what a member offers that is this method. -/
theorem ofMethod_eq_map_toFact (language : Language) (owner : String) (name result : Text)
    (params : List Text) :
    Fact.ofMethod language owner name result params =
      (ClassMember.method ⟨String.ofList name, String.ofList result, params.map String.ofList⟩
        ((params ++ [result]).flatMap language.dialect.usedNames)).features.map
          (Feature.toFact owner) := by
  rw [Fact.ofMethod, ClassMember.features, List.map_append, List.cons_append, ClassMember.used,
    List.flatMap_append, List.flatMap_singleton, List.map_append, List.map_append,
    usesOf_eq_map_toFact, List.map_flatMap, List.map_flatMap]
  exact congrArg (_ :: · ++ _) (List.flatMap_congr fun param _ => usesOf_eq_map_toFact _ _ _)

/-- An empty type expression uses nothing. -/
theorem usesOf_nil (language : Language) (owner : String) : Fact.usesOf language owner [] = [] := by
  have hnone : language.dialect.usedNames [] = [] := by cases language <;> decide +kernel
  rw [Fact.usesOf, hnone]
  rfl

namespace Model

/-- An offer to the only entity of a model. -/
theorem apply_single (entity : Entity) (feature : Feature) (language : Language) :
    Finding.apply ⟨[entity]⟩ ⟨language, feature.toFact entity.name⟩ = ⟨[entity.gain feature]⟩ := by
  have hoffer : offer ⟨[entity]⟩ entity.name feature = ⟨[entity.gain feature]⟩ := by
    simp [offer]
  cases feature <;> exact hoffer

/-- A run of offers to the only entity of a model. -/
theorem applyAll_single (entity : Entity) (features : List Feature) (language : Language) :
    applyAll ⟨[entity]⟩ ((features.map (Feature.toFact entity.name)).map (Finding.mk language)) =
      ⟨[entity.gainAll features]⟩ := by
  induction features generalizing entity with
  | nil => rfl
  | cons feature rest ih =>
      have hrest := ih (entity.gain feature)
      rw [Entity.name_gain] at hrest
      show applyAll (Finding.apply ⟨[entity]⟩ ⟨language, feature.toFact entity.name⟩)
        ((rest.map (Feature.toFact entity.name)).map (Finding.mk language)) = _
      rw [apply_single, hrest, Entity.gainAll_cons]

/-- The declaration of a class and offers to it make a model of one entity. -/
theorem applyAll_declared (name word : String) (offset : Option Nat) (features : List Feature)
    (language : Language) :
    empty.applyAll ((.declares name .cls word offset :: features.map (Feature.toFact name)).map
        (Finding.mk language)) =
      ⟨[({ name := name } : Entity).gainAll features]⟩ := by
  have hfirst : Finding.apply empty ⟨language, .declares name .cls word offset⟩ =
      ⟨[{ name := name }]⟩ := rfl
  show applyAll (Finding.apply empty ⟨language, .declares name .cls word offset⟩)
    ((features.map (Feature.toFact name)).map (Finding.mk language)) = _
  rw [hfirst]
  exact applyAll_single { name := name } features language

end Model

end ClassDiagram
