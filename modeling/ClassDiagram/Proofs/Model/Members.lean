import ClassDiagram.Proofs.Model.Edges
import ClassDiagram.Proofs.Model.Scoped

/-!
# Members that are told

A member is told from the others of its entity by its name if it is a field, and by its signature if
it is a method. By these keys, an entity has the members that a scoped run tells of its name.

* `Model.mem_memberKeys_iff`: the members of an entity after a scoped run.
-/

namespace ClassDiagram

/-- What tells a member of an entity from its others. -/
inductive MemberKey where
  | field (name : String)
  | method (signature : String × List String)
  deriving DecidableEq, Repr

/-- The key of a member; a relation has none. -/
def Feature.memberKey? : Feature → Option MemberKey
  | .field value => some (.field value.name)
  | .method value => some (.method value.signature)
  | _ => none

/-- The key of the member that a fact tells of `owner`. -/
def Fact.memberKey? (owner : String) (fact : Fact) : Option MemberKey :=
  (fact.offerTo? owner).bind Feature.memberKey?

/-- The keys of the members that some facts tell of `owner`. -/
def toldKeys (owner : String) (facts : List Fact) : List MemberKey :=
  facts.filterMap (Fact.memberKey? owner)

section ToldKeys

variable {owner : String} {facts others : List Fact}

theorem toldKeys_eq : toldKeys owner facts =
    (facts.filterMap (Fact.offerTo? owner)).filterMap Feature.memberKey? :=
  List.filterMap_filterMap.symm

/-- A key is told by a fact that offers a member of that key. -/
theorem mem_toldKeys {key : MemberKey} :
    key ∈ toldKeys owner facts ↔ ∃ fact ∈ facts, ∃ feature,
      fact.feature? = some (owner, feature) ∧ feature.memberKey? = some key := by
  simp only [toldKeys, List.mem_filterMap, Fact.memberKey?, Fact.offerTo?, Option.bind_eq_some_iff,
    Option.ite_none_right_eq_some, Option.some.injEq, Prod.exists]
  grind

@[simp] theorem toldKeys_append :
    toldKeys owner (facts ++ others) = toldKeys owner facts ++ toldKeys owner others :=
  List.filterMap_append

@[simp] theorem toldKeys_flatMap {Item : Type} {items : List Item} {tell : Item → List Fact} :
    toldKeys owner (items.flatMap tell) = items.flatMap fun item => toldKeys owner (tell item) :=
  List.filterMap_flatMap

/-- Facts about one owner tell of no member of another. -/
theorem toldKeys_of_allAbout {name : String} (h : AllAbout owner facts) (hne : owner ≠ name) :
    toldKeys name facts = [] := by
  refine List.eq_nil_iff_forall_not_mem.mpr fun key hkey => ?_
  obtain ⟨fact, hfact, feature, hfeature, -⟩ := mem_toldKeys.mp hkey
  exact hne ((h fact hfact).owner?_subset name (by rw [Fact.owner?, hfeature]; rfl)).symm

/-- Whether a fact tells no member of anything. -/
def Fact.Memberless (fact : Fact) : Prop := ∀ offer ∈ fact.feature?, offer.2.memberKey? = none

/-- Facts without members tell no keys. -/
theorem toldKeys_of_memberless (h : ∀ fact ∈ facts, fact.Memberless) :
    toldKeys owner facts = [] := by
  refine List.eq_nil_iff_forall_not_mem.mpr fun key hkey => ?_
  obtain ⟨fact, hfact, feature, hfeature, hmember⟩ := mem_toldKeys.mp hkey
  exact absurd ((h fact hfact _ hfeature).symm.trans hmember) (by simp)

/-- The uses of a type expression are no members. -/
theorem memberless_usesOf {language : Language} {expr : Text} :
    ∀ fact ∈ Fact.usesOf language owner expr, fact.Memberless := by
  intro fact hfact
  obtain ⟨name, _, rfl⟩ := List.mem_map.mp hfact
  rintro offer ⟨⟩
  rfl

end ToldKeys

namespace Entity

/-- The keys of all members of an entity. -/
def memberKeys (entity : Entity) : List MemberKey :=
  entity.fields.map (fun value => .field value.name) ++
    entity.methods.map fun value => .method value.signature

/-- What an entity refuses to gain as a member, it has by its key. -/
theorem memberKey_mem_of_refused {entity : Entity} {feature : Feature} {key : MemberKey}
    (h : entity.accepts feature = false) (hkey : feature.memberKey? = some key) :
    key ∈ entity.memberKeys := by
  rw [← Bool.not_eq_true] at h
  cases feature with
  | field value =>
      cases hkey
      rw [accepts_field_iff, not_not] at h
      obtain ⟨known, hknown, heq⟩ := List.mem_map.mp h
      exact List.mem_append_left _ (List.mem_map.mpr ⟨known, hknown, by rw [heq]⟩)
  | method value =>
      cases hkey
      rw [accepts_method_iff, not_not] at h
      obtain ⟨known, hknown, heq⟩ := List.mem_map.mp h
      exact List.mem_append_right _ (List.mem_map.mpr ⟨known, hknown, by rw [heq]⟩)
  | _ => exact absurd hkey (by simp [Feature.memberKey?])

/-- A gained member adds its key. -/
theorem mem_memberKeys_gain {entity : Entity} {feature : Feature} {key : MemberKey} :
    key ∈ (entity.gain feature).memberKeys ↔
      key ∈ entity.memberKeys ∨ feature.memberKey? = some key := by
  unfold gain
  split
  · cases feature <;> simp [put, memberKeys, Feature.memberKey?, eq_comm, or_comm, or_left_comm]
  · rename_i hrefused
    exact ⟨Or.inl, fun h => h.elim id (memberKey_mem_of_refused (Bool.not_eq_true _ ▸ hrefused))⟩

/-- The keys after gaining are the old ones and those of the members offered. -/
theorem mem_memberKeys_gainAll {entity : Entity} {features : List Feature} {key : MemberKey} :
    key ∈ (entity.gainAll features).memberKeys ↔
      key ∈ entity.memberKeys ∨ key ∈ features.filterMap Feature.memberKey? := by
  induction features generalizing entity with
  | nil => simp
  | cons feature rest ih =>
      rw [gainAll_cons, ih, mem_memberKeys_gain, or_assoc]
      simp [List.mem_filterMap]

/-- Fields and methods stay the same exactly if all members that are offered are known. -/
theorem members_gainAll_eq_iff {entity : Entity} {features : List Feature} :
    ((entity.gainAll features).fields = entity.fields ∧
        (entity.gainAll features).methods = entity.methods) ↔
      ∀ key ∈ features.filterMap Feature.memberKey?, key ∈ entity.memberKeys := by
  constructor
  · intro ⟨hfields, hmethods⟩ key hkey
    have hsame : (entity.gainAll features).memberKeys = entity.memberKeys := by
      rw [memberKeys, hfields, hmethods, memberKeys]
    rw [← hsame]
    exact mem_memberKeys_gainAll.mpr (Or.inr hkey)
  · intro hknown
    rw [fields_gainAll, methods_gainAll]
    refine ⟨foldl_addNew_of_known fun value hvalue => ?_,
      foldl_addNew_of_known fun value hvalue => ?_⟩
    · obtain ⟨feature, hfeature, hfield⟩ := List.mem_filterMap.mp hvalue
      have hkey : feature.memberKey? = some (.field value.name) := by
        cases feature <;> cases hfield
        rfl
      simpa [memberKeys] using hknown _ (List.mem_filterMap.mpr ⟨feature, hfeature, hkey⟩)
    · obtain ⟨feature, hfeature, hmethod⟩ := List.mem_filterMap.mp hvalue
      have hkey : feature.memberKey? = some (.method value.signature) := by
        cases feature <;> cases hmethod
        rfl
      simpa [memberKeys] using hknown _ (List.mem_filterMap.mpr ⟨feature, hfeature, hkey⟩)

end Entity

namespace Model

/-- What is declared after a run was so before or is by one of its findings. -/
theorem mem_names_applyAll {model : Model} {findings : List Finding} {name : String} :
    name ∈ (model.applyAll findings).names ↔
      name ∈ model.names ∨ name ∈ declaredNames findings := by
  have hkeys := @Entity.mem_keys_foldl_addNew _ _ _ id model.names (declaredNames findings) name
  rw [List.map_id, List.map_id, List.map_id, ← names_applyAll] at hkeys
  exact hkeys

/-- The keys of the members of an entity; a name that is not declared has none. -/
def memberKeys (model : Model) (name : String) : List MemberKey :=
  ((model.find? name).map Entity.memberKeys).getD []

/-- After a scoped run, an entity has the members that are told of its name. -/
theorem mem_memberKeys_iff {findings : List Finding} (h : Scoped [] (findings.map Finding.fact))
    {name : String} {key : MemberKey} :
    key ∈ (empty.applyAll findings).memberKeys name ↔
      key ∈ toldKeys name (findings.map Finding.fact) := by
  have hscoped : Scoped empty.names (findings.map Finding.fact) := h
  have htold : toldKeys name (findings.map Finding.fact) =
      (offered name findings).filterMap Feature.memberKey? := by
    rw [toldKeys, offered, List.filterMap_map, List.filterMap_filterMap]
    rfl
  have hnew : empty.find? name = none := rfl
  rw [htold, memberKeys, find?_applyAll hscoped, hnew, Option.none_or]
  cases hkind : firstKind? name findings with
  | some kind => exact Entity.mem_memberKeys_gainAll.trans (or_iff_right List.not_mem_nil)
  -- a type that is declared nowhere is offered nothing
  | none =>
      have hnone : offered name findings = [] := by
        refine List.filterMap_eq_nil_iff.mpr fun finding hfinding => ?_
        rw [← h.offerAs?_eq .cls name finding.fact (List.mem_map_of_mem hfinding)]
        exact h.owned.offerAs?_eq_none List.not_mem_nil hkind .cls finding hfinding
      rw [hnone]
      rfl

end Model

end ClassDiagram
