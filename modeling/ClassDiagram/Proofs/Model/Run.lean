import ClassDiagram.Loading.Source
import ClassDiagram.Proofs.Model.Gain

/-!
# Runs of contributions

A run reads sources, each in a language of its own, into one model. Whatever is read, in whatever
order, and also where a reading breaks off, the model only ever meets findings one at a time. So
what one finding keeps (`Sound.apply`), every run keeps.

* `Model.Sound`: the names of a model are distinct and all of its entities keep their rules.
* `kind_applyAll`: the kind of an entity is that of its first declaration.
* `sound_ofContributions`: both, for every run.
-/

namespace ClassDiagram

/-- A source and the language in which it is read. -/
structure Contribution where
  language : Language
  source : Source

namespace Contribution

/-- What a contribution finds, up to the fault that ends it if there is one. -/
def findings (contribution : Contribution) : List Finding :=
  (contribution.source.read contribution.language).findings

end Contribution

/-- The kind that a fact declares a name with. -/
def Fact.kindFor? (name : String) : Fact → Option Kind
  | .declares declared kind _ _ => if declared = name then some kind else none
  | _ => none

/-- The kind in the first declaration of a name. -/
def firstKind? (name : String) (findings : List Finding) : Option Kind :=
  findings.findSome? fun finding => finding.fact.kindFor? name

/-- The first kind is the one of the first finding that declares the name. -/
theorem firstKind?_cons (name : String) (finding : Finding) (rest : List Finding) :
    firstKind? name (finding :: rest) =
      (finding.fact.kindFor? name).or (firstKind? name rest) := by
  unfold firstKind?
  rw [List.findSome?_cons]
  cases finding.fact.kindFor? name <;> rfl

namespace Model

/-- The model after some contributions to an empty one. -/
def ofContributions (contributions : List Contribution) : Model :=
  contributions.foldl (fun model contribution => model.applyAll contribution.findings) empty

/-- The model of some sources in one language. -/
def ofSources (language : Language) (sources : List Source) : Model :=
  ofContributions (sources.map (Contribution.mk language))

/-- The model after some facts have been told in a language. -/
def tell (language : Language) (facts : List Fact) (model : Model) : Model :=
  model.applyAll (facts.map (Finding.mk language))

/-- The rules of a model: an entity stands for each name once, and keeps its own rules. -/
structure Sound (model : Model) : Prop where
  names_distinct : model.names.Nodup
  entities_sound : ∀ entity ∈ model.entities, entity.Sound

theorem sound_empty : Sound empty where
  names_distinct := List.nodup_nil
  entities_sound := fun _ h => absurd h List.not_mem_nil

/-- A name is declared exactly if it is among the names. -/
theorem contains_iff {model : Model} {name : String} :
    model.contains name = true ↔ name ∈ model.names := by
  simp [contains, find?, names]

/-! ## One finding -/

/-- A name is added behind the others, unless it is there. -/
theorem names_declare (model : Model) (name : String) (kind : Kind) :
    (model.declare name kind).names =
      if name ∈ model.names then model.names else model.names ++ [name] := by
  unfold declare
  by_cases h : name ∈ model.names
  · rw [if_pos h, if_pos (contains_iff.mpr h)]
  · rw [if_neg h, if_neg (fun hc => h (contains_iff.mp hc))]
    simp [names]

/-- An offer adds no name. -/
theorem names_offer (model : Model) (owner : String) (feature : Feature) :
    (model.offer owner feature).names = model.names := by
  unfold names offer
  rw [List.map_map]
  refine List.map_congr_left fun entity _ => ?_
  show Entity.name (if entity.name = owner then entity.gain feature else entity) = entity.name
  split
  · exact Entity.name_gain entity feature
  · rfl

/-- A declaration keeps the rules. -/
theorem Sound.declare {model : Model} (h : model.Sound) (name : String) (kind : Kind) :
    (model.declare name kind).Sound where
  names_distinct := by
    rw [names_declare]
    split
    · exact h.names_distinct
    · rename_i hnew
      refine List.nodup_append.mpr ⟨h.names_distinct, List.nodup_singleton _, ?_⟩
      intro a ha b hb
      rw [List.mem_singleton.mp hb]
      rintro rfl
      exact hnew ha
  entities_sound := by
    intro entity hentity
    unfold Model.declare at hentity
    split at hentity
    · exact h.entities_sound entity hentity
    · rcases List.mem_append.mp hentity with hold | hnew
      · exact h.entities_sound entity hold
      · rw [List.mem_singleton.mp hnew]
        exact Entity.sound_new name kind

/-- An offered feature keeps the rules. -/
theorem Sound.offer {model : Model} (h : model.Sound) (owner : String) (feature : Feature) :
    (model.offer owner feature).Sound where
  names_distinct := by
    rw [names_offer]
    exact h.names_distinct
  entities_sound := by
    intro entity hentity
    obtain ⟨before, hbefore, rfl⟩ := List.mem_map.mp hentity
    show Entity.Sound (if before.name = owner then before.gain feature else before)
    split
    · exact (h.entities_sound before hbefore).gain feature
    · exact h.entities_sound before hbefore

/-- What a finding does: it declares, it offers a feature, or it changes nothing. -/
theorem apply_cases (model : Model) (finding : Finding) :
    (∃ name kind word offset, finding.fact = .declares name kind word offset ∧
        finding.apply model = model.declare name kind) ∨
      ((∀ name kind word offset, finding.fact ≠ .declares name kind word offset) ∧
        ((∃ owner feature, finding.fact.feature? = some (owner, feature) ∧
            finding.apply model = model.offer owner feature) ∨
          finding.apply model = model)) := by
  unfold Finding.apply
  cases hfact : finding.fact with
  | declares name kind word offset => exact Or.inl ⟨name, kind, word, offset, rfl, rfl⟩
  | openBody _ | openShape _ => exact Or.inr ⟨by simp, Or.inr rfl⟩
  | enumValue owner name =>
      refine Or.inr ⟨by simp, ?_⟩
      -- the one fact that may not bear on the model
      by_cases happlies : Finding.applies model (.enumValue owner name) = true
      · exact Or.inl ⟨owner, .field ⟨name, ""⟩, rfl, if_pos happlies⟩
      · exact Or.inr (if_neg happlies)
  | _ => exact Or.inr ⟨by simp, Or.inl ⟨_, _, rfl, rfl⟩⟩

/-- Every finding keeps the rules. -/
theorem Sound.apply {model : Model} (h : model.Sound) (finding : Finding) :
    (finding.apply model).Sound := by
  rcases apply_cases model finding with
    ⟨name, kind, _, _, _, heq⟩ | ⟨-, ⟨owner, feature, _, heq⟩ | heq⟩
  · rw [heq]
    exact h.declare name kind
  · rw [heq]
    exact h.offer owner feature
  · rw [heq]
    exact h

/-! ## Looking up a name -/

/-- A declared name is found as a new entity, unless it was found before. -/
theorem find?_declare (model : Model) (declared name : String) (kind : Kind) :
    (model.declare declared kind).find? name =
      (model.find? name).or
        (if declared = name then some { name := name, kind := kind } else none) := by
  unfold declare
  split
  · rename_i hknown
    by_cases hname : declared = name
    · subst hname
      obtain ⟨entity, hentity⟩ := Option.isSome_iff_exists.mp hknown
      rw [hentity]
      rfl
    · rw [if_neg hname, Option.or_none]
  · unfold find?
    rw [List.find?_append]
    by_cases hname : declared = name
    · simp [hname]
    · simp [hname]

/-- An offer changes the entity that it is made to and no other. -/
theorem find?_offer (model : Model) (owner name : String) (feature : Feature) :
    (model.offer owner feature).find? name =
      (model.find? name).map fun entity => if owner = name then entity.gain feature else entity := by
  unfold offer find?
  induction model.entities with
  | nil => rfl
  | cons entity rest ih =>
      have hkeeps : (if entity.name = owner then entity.gain feature else entity).name =
          entity.name := by
        split <;> simp
      rw [List.map_cons, List.find?_cons, List.find?_cons]
      simp only [hkeeps]
      by_cases hname : entity.name = name
      · subst hname
        simp [eq_comm]
      · simp only [hname, decide_false]
        exact ih

/-! ## Kinds -/

/-- After a finding a name has the kind it had, or else the one it is now declared with. -/
theorem kind_apply (model : Model) (finding : Finding) (name : String) :
    ((finding.apply model).find? name).map Entity.kind =
      ((model.find? name).map Entity.kind).or (finding.fact.kindFor? name) := by
  rcases apply_cases model finding with
    ⟨declared, kind, word, offset, hfact, heq⟩ | ⟨hno, hrest⟩
  · rw [heq, hfact, find?_declare, Option.map_or]
    by_cases hname : declared = name <;> simp [Fact.kindFor?, hname]
  · have hnone : finding.fact.kindFor? name = none := by
      cases hfact : finding.fact with
      | declares declared kind word offset => exact absurd hfact (hno _ _ _ _)
      | _ => rfl
    rw [hnone, Option.or_none]
    rcases hrest with ⟨owner, feature, _, heq⟩ | heq
    -- an entity that gains a feature keeps its kind
    · have hkind : (Entity.kind ∘ fun entity : Entity =>
          if owner = name then entity.gain feature else entity) = Entity.kind := by
        funext entity
        show Entity.kind (if owner = name then entity.gain feature else entity) = entity.kind
        split <;> simp
      rw [heq, find?_offer, Option.map_map, hkind]
    · rw [heq]

/-! ## Runs -/

/-- A run of findings keeps the rules. -/
theorem Sound.applyAll {model : Model} (h : model.Sound) (findings : List Finding) :
    (model.applyAll findings).Sound := by
  induction findings generalizing model with
  | nil => exact h
  | cons finding rest ih => exact ih (h.apply finding)

/-- A name has the kind it had, or else that of its first declaration in the run. -/
theorem kind_applyAll (model : Model) (findings : List Finding) (name : String) :
    ((model.applyAll findings).find? name).map Entity.kind =
      ((model.find? name).map Entity.kind).or (firstKind? name findings) := by
  induction findings generalizing model with
  | nil => exact (Option.or_none).symm
  | cons finding rest ih =>
      show ((applyAll (finding.apply model) rest).find? name).map Entity.kind = _
      rw [ih, kind_apply, firstKind?_cons, Option.or_assoc]

/-- Contributions one by one come to all of their findings in a row. -/
theorem ofContributions_eq (contributions : List Contribution) :
    ofContributions contributions =
      empty.applyAll (contributions.flatMap Contribution.findings) := by
  unfold ofContributions applyAll
  rw [List.foldl_flatMap]

/-- With distinct names, every entity is found under its own name. -/
theorem Sound.find?_name {model : Model} (h : model.Sound) {entity : Entity}
    (hentity : entity ∈ model.entities) : model.find? entity.name = some entity := by
  obtain ⟨found, hfound⟩ : ∃ found, model.find? entity.name = some found :=
    Option.isSome_iff_exists.mp (contains_iff.mpr (List.mem_map_of_mem hentity))
  have hname : found.name = entity.name := by simpa using List.find?_some hfound
  have hmem : found ∈ model.entities := List.mem_of_find?_eq_some hfound
  rw [hfound, List.inj_on_of_nodup_map h.names_distinct hmem hentity hname]

/-- What is found in a sound model is sound. -/
theorem Sound.of_find? {model : Model} (h : model.Sound) {name : String} {entity : Entity}
    (hfind : model.find? name = some entity) : entity.Sound :=
  h.entities_sound entity (List.mem_of_find?_eq_some hfind)

/-- For every run of contributions, in any languages and also with readings that break off: the
names are distinct, each entity is found under its own name and under no other, its kind is that of
its first declaration, and it keeps its rules. -/
theorem sound_ofContributions (contributions : List Contribution) :
    (ofContributions contributions).names.Nodup ∧
      (∀ entity ∈ (ofContributions contributions).entities, ∀ name,
        (ofContributions contributions).find? name = some entity ↔ name = entity.name) ∧
      (∀ name, ((ofContributions contributions).find? name).map Entity.kind =
        firstKind? name (contributions.flatMap Contribution.findings)) ∧
      ∀ entity ∈ (ofContributions contributions).entities, entity.Sound := by
  have hsound : (ofContributions contributions).Sound := by
    rw [ofContributions_eq]
    exact sound_empty.applyAll _
  refine ⟨hsound.names_distinct, ?_, ?_, hsound.entities_sound⟩
  · intro entity hentity name
    constructor
    · intro hfound
      simpa [eq_comm] using List.find?_some hfound
    · rintro rfl
      exact hsound.find?_name hentity
  · intro name
    rw [ofContributions_eq, kind_applyAll]
    rfl

end Model

end ClassDiagram
