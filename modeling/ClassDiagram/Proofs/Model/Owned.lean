import ClassDiagram.Proofs.Model.Run

/-!
# Owned facts

A fact bears on a model only if its owner is declared. In an owned run every feature is offered to a
name that was declared before. Such a run gives each declared name all features that are told of it;
of the model that it meets only the kind of the entity matters, because a value in a body counts only
in an enumeration.

* `Owned`: every owner is declared before (`Owned.append`, `Owned.mono`).
* `Fact.offerAs?`, `Model.offeredAs`: what is offered to an entity of a kind.
* `Model.find?_apply`: what an entity is after one finding, whatever the finding.
* `Model.find?_applyAll_owned`: what an entity is after an owned run.
-/

namespace ClassDiagram

namespace Fact

/-- The name that a fact offers a feature to. -/
def owner? (fact : Fact) : Option String := fact.feature?.map Prod.fst

/-- The name that a fact declares. -/
def declared? : Fact → Option String
  | declares name .. => some name
  | _ => none

/-- Only a declaration declares a name. -/
theorem declared?_eq_none {fact : Fact}
    (h : ∀ name kind word offset, fact ≠ declares name kind word offset) :
    fact.declared? = none := by
  cases fact with
  | declares name kind word offset => exact absurd rfl (h name kind word offset)
  | _ => rfl

/-- The feature that a fact offers to `owner`. -/
def offerTo? (owner : String) (fact : Fact) : Option Feature :=
  fact.feature?.bind fun (other, feature) => if other = owner then some feature else none

/-- Whether a fact counts for entities of a kind: a value in a body only does in an enumeration. -/
def countsFor (kind : Kind) : Fact → Bool
  | enumValue .. => kind = .enum
  | _ => true

/-- The feature that a fact offers to `owner` if that is of a kind. -/
def offerAs? (kind : Kind) (owner : String) (fact : Fact) : Option Feature :=
  if fact.countsFor kind then fact.offerTo? owner else none

/-- What a fact offers to an entity it offers to its owner. -/
theorem owner?_of_offerAs? {fact : Fact} {kind : Kind} {owner : String} {feature : Feature}
    (h : fact.offerAs? kind owner = some feature) : fact.owner? = some owner := by
  unfold offerAs? at h
  split at h
  · obtain ⟨⟨other, offered⟩, hfeature, hown⟩ := Option.bind_eq_some_iff.mp h
    dsimp only at hown
    split at hown
    · rename_i howner
      rw [owner?, hfeature, Option.map_some, howner]
    · exact absurd hown (by simp)
  · exact absurd h (by simp)

end Fact

/-- Whether every feature is offered to a name declared before; some names are declared already. -/
def Owned (declared : List String) : List Fact → Prop
  | [] => True
  | fact :: rest =>
    (∀ owner ∈ fact.owner?, owner ∈ declared) ∧ Owned (fact.declared?.toList ++ declared) rest

/-- The names that are declared after some facts. -/
def declaredAfter (declared : List String) : List Fact → List String
  | [] => declared
  | fact :: rest => declaredAfter (fact.declared?.toList ++ declared) rest

/-- What is declared stays declared. -/
theorem subset_declaredAfter (declared : List String) (facts : List Fact) :
    declared ⊆ declaredAfter declared facts := by
  induction facts generalizing declared with
  | nil => exact List.Subset.refl _
  | cons fact rest ih => exact List.Subset.trans (List.subset_append_right _ _) (ih _)

/-- Names are declared one after the other. -/
theorem declaredAfter_append (declared : List String) (facts others : List Fact) :
    declaredAfter declared (facts ++ others) =
      declaredAfter (declaredAfter declared facts) others := by
  induction facts generalizing declared with
  | nil => rfl
  | cons fact rest ih => exact ih _

namespace Owned

variable {declared : List String} {facts others : List Fact}

/-- Facts about declared owners are so with more of them declared. -/
theorem mono (h : Owned declared facts) {more : List String} (hsub : declared ⊆ more) :
    Owned more facts := by
  induction facts generalizing declared more with
  | nil => trivial
  | cons fact rest ih =>
      exact ⟨fun owner howner => hsub (h.1 owner howner),
        ih h.2 (List.append_subset.mpr ⟨List.subset_append_left _ _,
          List.subset_append_of_subset_right _ hsub⟩)⟩

/-- Later facts may be about what the earlier ones declare. -/
theorem append (h : Owned declared facts) (hothers : Owned (declaredAfter declared facts) others) :
    Owned declared (facts ++ others) := by
  induction facts generalizing declared with
  | nil => exact hothers
  | cons fact rest ih => exact ⟨h.1, ih h.2 hothers⟩

/-- Facts that are owned item by item are owned together. -/
theorem flatMap {Item : Type} {items : List Item} {tell : Item → List Fact}
    (h : ∀ item ∈ items, Owned declared (tell item)) : Owned declared (items.flatMap tell) := by
  induction items generalizing declared with
  | nil => trivial
  | cons item rest ih =>
      rw [List.flatMap_cons]
      refine (h item List.mem_cons_self).append (ih fun other hother => ?_)
      exact (h other (List.mem_cons_of_mem _ hother)).mono (subset_declaredAfter _ _)

end Owned

/-- Of a name that is not declared, owned findings tell nothing. -/
theorem Owned.offerAs?_eq_none {declared : List String} {findings : List Finding} {name : String}
    (h : Owned declared (findings.map Finding.fact)) (hdeclared : name ∉ declared)
    (hnone : firstKind? name findings = none) (kind : Kind) :
    ∀ finding ∈ findings, finding.fact.offerAs? kind name = none := by
  induction findings generalizing declared with
  | nil => exact fun _ hmem => absurd hmem List.not_mem_nil
  | cons finding rest ih =>
      rw [firstKind?_cons, Option.or_eq_none_iff] at hnone
      have hnew : name ∉ finding.fact.declared?.toList ++ declared := by
        intro hmem
        rcases List.mem_append.mp hmem with hfact | hbefore
        · obtain ⟨language, fact⟩ := finding
          cases fact with
          | declares other _ _ _ =>
              cases List.mem_singleton.mp hfact
              exact absurd hnone.1 (by simp [Fact.kindFor?])
          | _ => exact absurd hfact List.not_mem_nil
        · exact hdeclared hbefore
      refine List.forall_mem_cons.mpr ⟨?_, ih h.2 hnew hnone.2⟩
      -- an offer would have an owner that is declared before it
      by_contra hsome
      obtain ⟨feature, hfeature⟩ := Option.ne_none_iff_exists'.mp hsome
      exact hdeclared (h.1 name (Fact.owner?_of_offerAs? hfeature))

namespace Model

/-- The features that some findings offer to a name. -/
def offered (name : String) (findings : List Finding) : List Feature :=
  findings.filterMap fun finding => finding.fact.offerTo? name

/-- The features that some findings offer to a name if that is of a kind. -/
def offeredAs (kind : Kind) (name : String) (findings : List Finding) : List Feature :=
  findings.filterMap fun finding => finding.fact.offerAs? kind name

theorem offeredAs_cons (kind : Kind) (name : String) (finding : Finding) (rest : List Finding) :
    offeredAs kind name (finding :: rest) =
      (finding.fact.offerAs? kind name).toList ++ offeredAs kind name rest := by
  rw [offeredAs, List.filterMap_cons]
  cases finding.fact.offerAs? kind name <;> rfl

/-- What a finding declares is declared after it, as is all that was. -/
theorem names_subset_apply (model : Model) (finding : Finding) :
    finding.fact.declared?.toList ++ model.names ⊆ (finding.apply model).names := by
  rcases apply_cases model finding with ⟨name, kind, word, offset, hfact, heq⟩ | ⟨hno, hrest⟩
  · rw [heq, hfact, names_declare]
    split
    · rename_i hknown
      exact List.cons_subset.mpr ⟨hknown, List.Subset.refl _⟩
    · simp [Fact.declared?]
  · rw [Fact.declared?_eq_none hno, Option.toList_none, List.nil_append]
    rcases hrest with ⟨owner, feature, _, heq⟩ | heq
    · rw [heq, names_offer]
      exact List.Subset.refl _
    · rw [heq]
      exact List.Subset.refl _

/-- After a finding a name stands for what it did, or else for a new entity if it is declared now,
with the feature that the finding offers to it. -/
theorem find?_apply (model : Model) (finding : Finding) (name : String) :
    (finding.apply model).find? name =
      ((model.find? name).or ((finding.fact.kindFor? name).map fun kind =>
        { name := name, kind := kind })).map fun entity =>
          entity.gainAll (finding.fact.offerAs? entity.kind name).toList := by
  obtain ⟨language, fact⟩ := finding
  cases fact with
  | declares declared kind word offset =>
      show (model.declare declared kind).find? name = _
      rw [find?_declare]
      by_cases hname : declared = name <;>
        simp [hname, Fact.kindFor?, Fact.offerAs?, Fact.offerTo?, Fact.feature?]
  | openBody | openShape =>
      show model.find? name = _
      simp [Fact.kindFor?, Fact.offerAs?, Fact.offerTo?, Fact.feature?]
  | enumValue owner value =>
      -- the kind of the owner decides, and it is looked up in the model
      show Model.find? (if (model.find? owner).any (fun entity => entity.kind = .enum)
        then model.offer owner (.field ⟨value, ""⟩) else model) name = _
      by_cases hname : owner = name
      · subst hname
        cases hfind : model.find? owner with
        | none => simp [Fact.kindFor?, hfind]
        | some entity =>
            by_cases hkind : entity.kind = .enum <;>
              simp [hfind, hkind, find?_offer, Fact.kindFor?, Fact.offerAs?, Fact.countsFor,
                Fact.offerTo?, Fact.feature?]
      · split <;>
          simp [hname, find?_offer, Fact.kindFor?, Fact.offerAs?, Fact.countsFor, Fact.offerTo?,
            Fact.feature?]
  | inherits owner _ | realizes owner _ | field owner _ _ | parameterProperty owner _ _
  | enumMember owner _ _ | method owner _ | uses owner _ =>
      show (model.offer owner _).find? name = _
      rw [find?_offer]
      by_cases hname : owner = name <;>
        simp [hname, Fact.kindFor?, Fact.offerAs?, Fact.countsFor, Fact.offerTo?, Fact.feature?]

/-- After an owned run, an entity is what it was, or else newly declared, with all features that the
run offers to its name and that count for its kind. -/
theorem find?_applyAll_owned {model : Model} {findings : List Finding}
    (h : Owned model.names (findings.map Finding.fact)) (name : String) :
    (model.applyAll findings).find? name =
      ((model.find? name).or
        ((firstKind? name findings).map fun kind => { name := name, kind := kind })).map
          fun entity => entity.gainAll (offeredAs entity.kind name findings) := by
  induction findings generalizing model with
  | nil =>
      show model.find? name = ((model.find? name).or none).map (Entity.gainAll · [])
      rw [Option.or_none]
      exact Option.map_id'.symm
  | cons finding rest ih =>
      rw [List.map_cons] at h
      have hrest := ih (h.2.mono (names_subset_apply model finding))
      show (applyAll (finding.apply model) rest).find? name = _
      rw [hrest, find?_apply, firstKind?_cons]
      cases hfind : model.find? name with
      | some entity => simp [offeredAs_cons, Entity.gainAll_append]
      | none =>
          cases hkind : finding.fact.kindFor? name with
          | some kind => simp [offeredAs_cons, Entity.gainAll_append]
          | none =>
              -- the name is not declared yet, so that nothing is offered to it
              have hnothing : ∀ kind, finding.fact.offerAs? kind name = none := by
                intro kind
                by_contra hsome
                obtain ⟨feature, hfeature⟩ := Option.ne_none_iff_exists'.mp hsome
                have hdeclared := h.1 name (Fact.owner?_of_offerAs? hfeature)
                rw [← contains_iff, contains, hfind] at hdeclared
                exact absurd hdeclared (by simp)
              simp [offeredAs_cons, hnothing]

end Model

end ClassDiagram
