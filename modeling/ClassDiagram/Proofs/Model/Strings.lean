import ClassDiagram.Proofs.Model.Run

/-!
# The strings of a model

A model writes down what it is told and makes up nothing: every string in it stands in one of the
facts from which it was made. So what holds of the strings of all facts holds of those of the model.

* `Fact.strings`, `Entity.strings`, `Model.strings`: the strings that are drawn.
* `Model.mem_strings_apply`, `Model.mem_strings_applyAll`: where they come from, for one finding and
  for all.
-/

namespace ClassDiagram

/-- The strings of a field. -/
def Field.strings (field : Field) : List String := [field.name, field.type]

/-- The strings of a method. -/
def Method.strings (method : Method) : List String := method.name :: method.result :: method.params

/-- The strings that an entity gains with a feature. -/
def Feature.strings : Feature → List String
  | field value => value.strings
  | method value => value.strings
  | base name | interface name | dependency name => [name]

/-- The strings that a model gains with a fact. -/
def Fact.strings : Fact → List String
  | declares name _ _ _ => [name]
  | fact => fact.feature?.toList.flatMap fun offer => offer.2.strings

theorem Fact.strings_of_feature? {fact : Fact} {owner : String} {feature : Feature}
    (h : fact.feature? = some (owner, feature)) : fact.strings = feature.strings := by
  cases fact <;> simp_all [strings, feature?]

namespace Entity

/-- The strings of an entity: its name, the names and types of its members, and the names that it is
related to. -/
def strings (entity : Entity) : List String :=
  entity.name :: (entity.fields.flatMap Field.strings ++ entity.methods.flatMap Method.strings ++
    entity.bases.toList ++ entity.interfaces.toList ++ entity.dependencies.toList)

theorem mem_strings {entity : Entity} {string : String} :
    string ∈ entity.strings ↔ string = entity.name ∨
      (∃ field ∈ entity.fields, string ∈ field.strings) ∨
      (∃ method ∈ entity.methods, string ∈ method.strings) ∨
      string ∈ entity.bases ∨ string ∈ entity.interfaces ∨ string ∈ entity.dependencies := by
  simp only [strings, List.mem_cons, List.mem_append, List.mem_flatMap, or_assoc,
    NameSet.mem_def]

/-- An entity gains no string but those of the feature. -/
theorem mem_strings_gain {entity : Entity} {feature : Feature} {string : String}
    (h : string ∈ (entity.gain feature).strings) :
    string ∈ entity.strings ∨ string ∈ feature.strings := by
  unfold gain at h
  split at h
  · cases feature with
    | field value =>
        simp only [mem_strings, put, List.mem_append, List.mem_singleton] at h ⊢
        grind [Feature.strings]
    | method value =>
        simp only [mem_strings, put, List.mem_append, List.mem_singleton] at h ⊢
        grind [Feature.strings]
    | base name | interface name | dependency name =>
        simp only [mem_strings, put, NameSet.mem_insert, NameSet.mem_erase] at h ⊢
        grind [Feature.strings]
  · exact Or.inl h

end Entity

namespace Model

/-- The strings of a model. -/
def strings (model : Model) : List String := model.entities.flatMap Entity.strings

/-- A finding brings no string into a model but those of its fact. -/
theorem mem_strings_apply {model : Model} {finding : Finding} {string : String}
    (h : string ∈ (finding.apply model).strings) :
    string ∈ model.strings ∨ string ∈ finding.fact.strings := by
  rcases apply_cases model finding with
    ⟨name, kind, word, offset, hfact, heq⟩ | ⟨hother, ⟨owner, feature, hfeature, heq⟩ | heq⟩
  · rw [heq, declare] at h
    split at h
    · exact Or.inl h
    -- a new entity has its name and nothing else
    · rw [strings, List.flatMap_append, List.mem_append] at h
      refine h.imp_right fun hnew => ?_
      rw [hfact]
      simpa [Entity.mem_strings, Fact.strings] using hnew
  · rw [heq] at h
    obtain ⟨entity, hentity, hstring⟩ := List.mem_flatMap.mp h
    obtain ⟨before, hbefore, rfl⟩ := List.mem_map.mp hentity
    split at hstring
    · refine (Entity.mem_strings_gain hstring).imp
        (fun hold => List.mem_flatMap.mpr ⟨before, hbefore, hold⟩) fun hnew => ?_
      rwa [Fact.strings_of_feature? hfeature]
    · exact Or.inl (List.mem_flatMap.mpr ⟨before, hbefore, hstring⟩)
  · rw [heq] at h
    exact Or.inl h

/-- Every string of a model that was made from findings was in it at first, or is told by one of
them. -/
theorem mem_strings_applyAll {model : Model} {findings : List Finding} {string : String}
    (h : string ∈ (model.applyAll findings).strings) :
    string ∈ model.strings ∨ ∃ finding ∈ findings, string ∈ finding.fact.strings := by
  induction findings generalizing model with
  | nil => exact Or.inl h
  | cons finding rest ih =>
      rcases ih h with hbefore | ⟨later, hlater, hstring⟩
      · exact (mem_strings_apply hbefore).imp_right fun hnew =>
          ⟨finding, List.mem_cons_self, hnew⟩
      · exact Or.inr ⟨later, List.mem_cons_of_mem _ hlater, hstring⟩

/-- Every string of the model of a run is told by a finding of one of its contributions. -/
theorem mem_strings_ofContributions {contributions : List Contribution} {string : String}
    (h : string ∈ (ofContributions contributions).strings) :
    ∃ contribution ∈ contributions, ∃ finding ∈ contribution.findings,
      string ∈ finding.fact.strings := by
  rw [ofContributions_eq] at h
  rcases mem_strings_applyAll h with hempty | ⟨finding, hfinding, hstring⟩
  · cases hempty
  · obtain ⟨contribution, hmem, hfinding⟩ := List.mem_flatMap.mp hfinding
    exact ⟨contribution, hmem, finding, hfinding, hstring⟩

end Model

end ClassDiagram
