import ClassDiagram.Proofs.Model.Growth
import ClassDiagram.Proofs.Model.Owned

/-!
# Settled findings

A finding is settled in a model if nothing is left to add of it: what it declares or is about is
declared, and what it offers is refused. An owned finding is settled once it was applied, and stays
settled while the model grows. So a run of owned findings changes nothing when it is repeated,
whatever was a dependency first and a base later, and whatever was refused.

* `Settled.apply_eq`: a settled finding changes nothing.
* `settled_apply`, `Settled.grows`: how findings become settled, and stay so.
* `applyAll_applyAll`: an owned run, repeated.
-/

namespace ClassDiagram

namespace Model

/-- A fact that offers a feature does so wherever it applies. -/
theorem apply_feature {model : Model} {finding : Finding} {owner : String} {feature : Feature}
    (h : finding.fact.feature? = some (owner, feature)) :
    finding.apply model =
      if Finding.applies model finding.fact then model.offer owner feature else model := by
  obtain ⟨language, fact⟩ := finding
  cases fact with
  | declares | openBody | openShape => exact absurd h (by simp [Fact.feature?])
  | _ =>
      cases h
      rfl

/-- An offer that every entity of the name refuses changes nothing. -/
theorem offer_eq_self {model : Model} {owner : String} {feature : Feature}
    (h : ∀ entity ∈ model.entities, entity.name = owner → entity.accepts feature = false) :
    model.offer owner feature = model := by
  have hsame : model.entities.map (fun entity =>
      if entity.name = owner then entity.gain feature else entity) = model.entities.map id := by
    refine List.map_congr_left fun entity hentity => ?_
    split
    · rename_i hname
      rw [Entity.gain, if_neg (Bool.eq_false_iff.mp (h entity hentity hname)), id]
    · rfl
  unfold offer
  rw [hsame, List.map_id]

/-- Whether a fact applies does not change while the model grows, once its owner is declared. -/
theorem Grows.applies_eq {before after : Model} (h : before.Grows after) {fact : Fact}
    (hdeclared : ∀ owner ∈ fact.owner?, owner ∈ before.names) :
    Finding.applies after fact = Finding.applies before fact := by
  cases fact with
  | enumValue owner value =>
      obtain ⟨entity, hentity⟩ :=
        Option.isSome_iff_exists.mp (contains_iff.mpr (hdeclared owner rfl))
      obtain ⟨grown, hgrown, hgrows⟩ := h.find? hentity
      simp only [Finding.applies, hentity, hgrown, Option.any_some, hgrows.kind]
  | _ => rfl

/-- Whether nothing is left to add of a finding. -/
structure Settled (model : Model) (finding : Finding) : Prop where
  declared : ∀ name ∈ finding.fact.declared?, name ∈ model.names
  owned : ∀ owner ∈ finding.fact.owner?, owner ∈ model.names
  refused : ∀ owner feature, finding.fact.feature? = some (owner, feature) →
    Finding.applies model finding.fact = true →
      ∀ entity ∈ model.entities, entity.name = owner → entity.accepts feature = false

variable {model : Model}

/-- A settled finding changes nothing. -/
theorem Settled.apply_eq {finding : Finding} (h : Settled model finding) :
    finding.apply model = model := by
  cases hfeature : finding.fact.feature? with
  | some offered =>
      rw [apply_feature hfeature]
      split
      · rename_i happlies
        exact offer_eq_self (h.refused _ _ hfeature happlies)
      · rfl
  | none =>
      rcases apply_cases model finding with
        ⟨name, kind, word, offset, hfact, heq⟩ | ⟨-, ⟨owner, feature, hsome, _⟩ | heq⟩
      · have hname : name ∈ model.names := h.declared name (by rw [hfact]; rfl)
        rw [heq, declare, if_pos (contains_iff.mpr hname)]
      · exact absurd (hfeature.symm.trans hsome) (by simp)
      · exact heq

/-- A settled finding stays settled while the model grows. -/
theorem Settled.grows {after : Model} {finding : Finding} (h : Settled model finding)
    (hgrows : model.Grows after) : Settled after finding where
  declared := fun name hname => hgrows.names_initial.subset (h.declared name hname)
  owned := fun owner howner => hgrows.names_initial.subset (h.owned owner howner)
  refused := by
    intro owner feature hfeature happlies entity hentity hname
    rw [hgrows.applies_eq h.owned] at happlies
    have howner : owner ∈ model.names :=
      h.owned owner (by rw [Fact.owner?, hfeature]; rfl)
    -- the entity was there before, and has only grown since
    obtain ⟨earlier, hearlier, hentity'⟩ := hgrows.exists_of_mem hentity (hname ▸ howner)
    have hearlierName : earlier.name = owner := hentity'.name.symm.trans hname
    exact hentity'.refuses (h.refused owner feature hfeature happlies earlier hearlier hearlierName)

/-- A finding whose owner is declared is settled once it was applied. -/
theorem settled_apply {finding : Finding}
    (h : ∀ owner ∈ finding.fact.owner?, owner ∈ model.names) :
    Settled (finding.apply model) finding where
  declared := by
    intro name hname
    exact names_subset_apply model finding
      (List.mem_append_left _ (Option.mem_toList.mpr hname))
  owned := fun owner howner => (model.grows_apply finding).names_initial.subset (h owner howner)
  refused := by
    intro owner feature hfeature happlies entity hentity hname
    rw [(model.grows_apply finding).applies_eq h] at happlies
    rw [apply_feature hfeature, if_pos happlies] at hentity
    obtain ⟨earlier, _, rfl⟩ := List.mem_map.mp hentity
    have howner : earlier.name = owner := by
      split at hname
      · assumption
      · exact hname
    rw [if_pos howner]
    exact earlier.accepts_gain_self feature

/-- All findings of an owned run are settled after it. -/
theorem settled_applyAll {findings : List Finding}
    (h : Owned model.names (findings.map Finding.fact)) :
    ∀ finding ∈ findings, Settled (model.applyAll findings) finding := by
  induction findings generalizing model with
  | nil => exact fun _ hmem => absurd hmem List.not_mem_nil
  | cons finding rest ih =>
      rw [List.map_cons] at h
      refine List.forall_mem_cons.mpr ⟨?_, ih (h.2.mono (names_subset_apply model finding))⟩
      exact (settled_apply h.1).grows (grows_applyAll (finding.apply model) rest)

theorem applyAll_of_settled {findings : List Finding}
    (h : ∀ finding ∈ findings, Settled model finding) : model.applyAll findings = model := by
  induction findings with
  | nil => rfl
  | cons finding rest ih =>
      show applyAll (finding.apply model) rest = model
      rw [(h finding List.mem_cons_self).apply_eq]
      exact ih fun other hother => h other (List.mem_cons_of_mem _ hother)

/-- A run of owned findings changes nothing when it is repeated. -/
theorem applyAll_applyAll {findings : List Finding}
    (h : Owned model.names (findings.map Finding.fact)) :
    (model.applyAll findings).applyAll findings = model.applyAll findings :=
  applyAll_of_settled (settled_applyAll h)

end Model

end ClassDiagram
