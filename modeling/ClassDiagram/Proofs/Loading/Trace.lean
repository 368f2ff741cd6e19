import ClassDiagram.Proofs.Loading.Contribute

/-!
# The trace of a run

While a model grows, the findings that change it are noted. So the trace can be held against the
model in the end: a member is noted exactly when it is added, and an edge is noted once. An edge may
be given up later, when the name turns out to be a base or an interface; it is never noted again,
because the entity refuses it from then on.

* `Model.memberCount_applyAll`: members are counted by the trace.
* `Model.EdgesTold`: what the noted edges have in common with a model, kept by every finding
  (`EdgesTold.apply`) and so by every run (`EdgesTold.applyAll`).
* `Session.contributeAll_told`: both, for every run of contributions.
-/

namespace ClassDiagram

namespace Fact

/-- Whether a fact tells a member: a field, a parameter that is one, a member of an enumeration or
a method. -/
def isMember : Fact → Bool
  | field .. | parameterProperty .. | enumMember .. | enumValue .. | method .. => true
  | declares .. | openBody _ | openShape _ | inherits .. | realizes .. | uses .. => false

/-- The edge that a fact tells: the user and the used. -/
def edge? : Fact → Option (String × String)
  | uses owner name => some (owner, name)
  | _ => none

/-- Only a use offers a dependency. -/
theorem eq_uses_of_feature? {fact : Fact} {owner used : String}
    (h : fact.feature? = some (owner, .dependency used)) : fact = .uses owner used := by
  cases fact <;> simp_all [feature?]

end Fact

/-- The edges that some findings tell, in order. -/
def Finding.edges (findings : List Finding) : List (String × String) :=
  findings.filterMap fun finding => finding.fact.edge?

/-! ## Members -/

/-- Whether a feature is a member. -/
def Feature.isMember : Feature → Bool
  | .field _ | .method _ => true
  | .base _ | .interface _ | .dependency _ => false

namespace Entity

/-- The number of members of an entity. -/
def memberCount (entity : Entity) : Nat := entity.fields.length + entity.methods.length

/-- A member that is accepted counts. -/
theorem memberCount_gain (entity : Entity) (feature : Feature) :
    (entity.gain feature).memberCount =
      entity.memberCount + if feature.isMember && entity.accepts feature then 1 else 0 := by
  unfold gain
  split
  · rename_i haccepts
    rw [haccepts, Bool.and_true]
    cases feature <;> simp [put, memberCount, Feature.isMember] <;> omega
  · rename_i hrefuses
    simp [hrefuses]

end Entity

namespace Model

/-- The number of members of all entities. -/
def memberCount (model : Model) : Nat :=
  model.entities.foldr (fun entity rest => entity.memberCount + rest) 0

theorem memberCount_cons (entity : Entity) (rest : List Entity) :
    memberCount ⟨entity :: rest⟩ = entity.memberCount + memberCount ⟨rest⟩ := rfl

/-- A new entity has no members. -/
theorem memberCount_declare (model : Model) (name : String) (kind : Kind) :
    (model.declare name kind).memberCount = model.memberCount := by
  unfold declare
  split
  · rfl
  · simp [memberCount, Entity.memberCount]

/-- An offer adds a member exactly if it is one and is accepted: with distinct names there is one
entity that can accept it. -/
theorem memberCount_offer {model : Model} (h : model.names.Nodup) (owner : String)
    (feature : Feature) :
    (model.offer owner feature).memberCount =
      model.memberCount + if feature.isMember && model.accepts owner feature then 1 else 0 := by
  obtain ⟨entities⟩ := model
  induction entities with
  | nil => simp [offer, accepts, find?, memberCount]
  | cons entity rest ih =>
      obtain ⟨hnew, hrest⟩ := List.nodup_cons.mp h
      -- names are distinct, so that the offer reaches this entity or one of the rest
      by_cases hname : entity.name = owner
      · have hothers : offer ⟨rest⟩ owner feature = ⟨rest⟩ := by
          refine offer_eq_self fun other hother hotherName => ?_
          exact absurd (List.mem_map_of_mem hother) (hotherName.trans hname.symm ▸ hnew)
        have hoffer : offer ⟨entity :: rest⟩ owner feature = ⟨entity.gain feature :: rest⟩ := by
          have hsame := congrArg Model.entities hothers
          simp only [offer, List.map_cons, if_pos hname] at hsame ⊢
          rw [hsame]
        have haccepts : accepts ⟨entity :: rest⟩ owner feature = entity.accepts feature := by
          simp [accepts, find?, hname]
        rw [hoffer, haccepts, memberCount_cons, memberCount_cons, Entity.memberCount_gain]
        omega
      · have hoffer : offer ⟨entity :: rest⟩ owner feature =
            ⟨entity :: (offer ⟨rest⟩ owner feature).entities⟩ := by
          simp [offer, hname]
        have haccepts : accepts ⟨entity :: rest⟩ owner feature = accepts ⟨rest⟩ owner feature := by
          simp [accepts, find?, hname]
        rw [hoffer, haccepts, memberCount_cons, memberCount_cons, Nat.add_assoc, ← ih hrest]

/-- A finding adds a member exactly if it tells one and is noted. -/
theorem memberCount_apply {model : Model} (h : model.names.Nodup) (finding : Finding) :
    (finding.apply model).memberCount =
      model.memberCount + if finding.fact.isMember && finding.isNoted model then 1 else 0 := by
  obtain ⟨language, fact⟩ := finding
  have hoffer := fun owner feature => memberCount_offer h owner feature
  cases fact with
  | declares name kind word offset => exact model.memberCount_declare name kind
  | openBody | openShape => rfl
  | inherits owner base => exact hoffer owner (.base base)
  | realizes owner interface => exact hoffer owner (.interface interface)
  | uses owner used => exact hoffer owner (.dependency used)
  | field owner name type | parameterProperty owner name type =>
      cases language <;> exact hoffer owner (.field ⟨name, type⟩)
  | enumMember owner name label => cases language <;> exact hoffer owner (.field ⟨name, ""⟩)
  | method owner value => cases language <;> exact hoffer owner (.method value)
  | enumValue owner name =>
      -- noted only where it bears on the model, which is also where it is offered
      have hnoted : Finding.isNoted model ⟨language, .enumValue owner name⟩ =
          (Finding.applies model (.enumValue owner name) &&
            model.accepts owner (.field ⟨name, ""⟩)) := by
        cases language <;> rfl
      rw [apply_feature rfl, hnoted]
      dsimp only
      split
      · rename_i happlies
        rw [happlies, Bool.true_and]
        exact hoffer owner (.field ⟨name, ""⟩)
      · rename_i happlies
        simp [happlies]

/-- A run adds as many members as its trace tells. -/
theorem memberCount_applyAll {model : Model} (h : model.Sound) (findings : List Finding) :
    (model.applyAll findings).memberCount =
      model.memberCount + (model.noted findings).countP fun finding => finding.fact.isMember := by
  induction findings generalizing model with
  | nil => rfl
  | cons finding rest ih =>
      show (applyAll (finding.apply model) rest).memberCount = _
      rw [ih (h.apply finding), memberCount_apply h.names_distinct, noted]
      cases hnoted : finding.isNoted model with
      | false => simp
      | true => simp only [if_true, List.countP_cons, Bool.and_true]; omega

/-- Nothing is noted but what is found. -/
theorem noted_subset (model : Model) (findings : List Finding) : model.noted findings ⊆ findings := by
  induction findings generalizing model with
  | nil => exact List.Subset.refl _
  | cons finding rest ih =>
      rw [noted]
      split
      · exact List.cons_subset_cons _ (ih _)
      · exact List.subset_cons_of_subset _ (ih _)

/-! ## Edges -/

/-- What the edges of a trace have in common with the model: each stands there once, every
dependency is among them, and every one of them leads to a name that is related in some role. -/
structure EdgesTold (model : Model) (told : List (String × String)) : Prop where
  distinct : told.Nodup
  complete : ∀ owner entity, model.find? owner = some entity →
    ∀ used ∈ entity.dependencies, (owner, used) ∈ told
  related : ∀ owner used, (owner, used) ∈ told → ∃ entity, model.find? owner = some entity ∧
    (used ∈ entity.dependencies ∨ used ∈ entity.bases ∨ used ∈ entity.interfaces)

theorem edgesTold_empty : EdgesTold empty [] where
  distinct := List.nodup_nil
  complete := fun _ _ h => absurd h (by simp [find?, empty])
  related := fun _ _ h => absurd h List.not_mem_nil

/-- A related name stays related while the model grows. -/
theorem Grows.related {before after : Model} (h : before.Grows after) {owner used : String}
    {entity : Entity} (hfind : before.find? owner = some entity)
    (hrelated : used ∈ entity.dependencies ∨ used ∈ entity.bases ∨ used ∈ entity.interfaces) :
    ∃ grown, after.find? owner = some grown ∧
      (used ∈ grown.dependencies ∨ used ∈ grown.bases ∨ used ∈ grown.interfaces) := by
  obtain ⟨grown, hgrown, hgrows⟩ := h.find? hfind
  refine ⟨grown, hgrown, ?_⟩
  rcases hrelated with hdependency | hbase | hinterface
  · exact hgrows.dependencies used hdependency
  · exact Or.inr (Or.inl (hgrows.bases used hbase))
  · exact Or.inr (Or.inr (hgrows.interfaces used hinterface))

/-- A use is noted exactly if the entity accepts it as a dependency. -/
theorem isNoted_uses (model : Model) (language : Language) (owner used : String) :
    Finding.isNoted model ⟨language, .uses owner used⟩ =
      model.accepts owner (.dependency used) := by
  cases language <;> rfl

/-- A dependency after a finding was one before, or is a use that the finding tells. -/
theorem dependency_apply {model : Model} (h : model.Sound) {finding : Finding} {owner used : String}
    {entity : Entity} (hfind : (finding.apply model).find? owner = some entity)
    (hused : used ∈ entity.dependencies) :
    (∃ before, model.find? owner = some before ∧ used ∈ before.dependencies) ∨
      (finding.fact = .uses owner used ∧ finding.isNoted model = true) := by
  rcases apply_cases model finding with
    ⟨name, kind, _, _, _, heq⟩ | ⟨-, ⟨other, feature, hfeature, heq⟩ | heq⟩
  -- a new entity has no dependencies
  · rw [heq, find?_declare] at hfind
    rcases Option.or_eq_some_iff.mp hfind with hold | ⟨-, hnew⟩
    · exact Or.inl ⟨entity, hold, hused⟩
    · split at hnew
      · cases hnew
        exact absurd hused (NameSet.not_mem_empty _)
      · exact absurd hnew (by simp)
  · rw [heq, find?_offer] at hfind
    obtain ⟨before, hbefore, rfl⟩ := Option.map_eq_some_iff.mp hfind
    split at hused
    · rename_i hother
      subst hother
      obtain ⟨hold | ⟨rfl, hisOther⟩, hbase, hinterface⟩ :=
        (Entity.mem_dependencies_gain (h.of_find? hbefore)).mp hused
      · exact Or.inl ⟨before, hbefore, hold⟩
      · by_cases hknown : used ∈ before.dependencies
        · exact Or.inl ⟨before, hbefore, hknown⟩
        · have hfact := Fact.eq_uses_of_feature? hfeature
          have hnoBase : used ∉ before.bases := fun hmem =>
            hbase (Entity.mem_bases_gain.mpr (Or.inl hmem))
          have hnoInterface : used ∉ before.interfaces := fun hmem =>
            hinterface (Entity.mem_interfaces_gain.mpr (Or.inl hmem))
          obtain ⟨language, fact⟩ := finding
          dsimp only at hfact
          subst hfact
          refine Or.inr ⟨rfl, ?_⟩
          rw [isNoted_uses, accepts, hbefore, Option.any_some]
          simp only [Entity.accepts, hisOther, hnoBase, hnoInterface, hknown, not_false_eq_true,
            decide_true, Bool.and_self]
    · exact Or.inl ⟨before, hbefore, hused⟩
  · rw [heq] at hfind
    exact Or.inl ⟨entity, hfind, hused⟩

/-- A use that is noted was not related before, and is a dependency afterwards. -/
theorem accepted_of_isNoted {model : Model} {language : Language} {owner used : String}
    (h : Finding.isNoted model ⟨language, .uses owner used⟩ = true) :
    ∃ before, model.find? owner = some before ∧
      ¬ (used ∈ before.dependencies ∨ used ∈ before.bases ∨ used ∈ before.interfaces) ∧
      ∃ entity, (Finding.apply model ⟨language, .uses owner used⟩).find? owner = some entity ∧
        used ∈ entity.dependencies := by
  rw [isNoted_uses, accepts, Option.any_eq_true] at h
  obtain ⟨before, hbefore, haccepts⟩ := h
  refine ⟨before, hbefore, ?_, before.gain (.dependency used), ?_, ?_⟩
  · simp only [Entity.accepts, Bool.and_eq_true, decide_eq_true_eq] at haccepts
    tauto
  · show (model.offer owner (.dependency used)).find? owner = _
    rw [find?_offer, hbefore, Option.map_some, if_pos rfl]
  · rw [Entity.gain, if_pos haccepts]
    exact NameSet.mem_insert.mpr (Or.inl rfl)

/-- One finding, with the edge that it tells if it is noted. -/
theorem EdgesTold.apply {model : Model} {told : List (String × String)} (h : model.EdgesTold told)
    (hsound : model.Sound) (finding : Finding) :
    (finding.apply model).EdgesTold
      (told ++ if finding.isNoted model then finding.fact.edge?.toList else []) where
  distinct := by
    split
    · rename_i hnoted
      obtain ⟨language, fact⟩ := finding
      cases fact with
      | uses owner used =>
          obtain ⟨before, hbefore, hfresh, -⟩ := accepted_of_isNoted hnoted
          refine List.nodup_append.mpr ⟨h.distinct, List.nodup_singleton _, ?_⟩
          rintro edge hedge _ hnew rfl
          rw [List.mem_singleton.mp hnew] at hedge
          -- an edge that was noted before is still related, so that it is not accepted
          obtain ⟨entity, hentity, hrelated⟩ := h.related owner used hedge
          rw [hbefore, Option.some.injEq] at hentity
          exact hfresh (hentity ▸ hrelated)
      | _ => simpa [Fact.edge?] using h.distinct
    · simpa using h.distinct
  complete := by
    intro owner entity hfind used hused
    rcases dependency_apply hsound hfind hused with ⟨before, hbefore, hold⟩ | ⟨hfact, hnoted⟩
    · exact List.mem_append_left _ (h.complete owner before hbefore used hold)
    · rw [if_pos hnoted, hfact]
      exact List.mem_append_right _ (List.mem_singleton.mpr rfl)
  related := by
    intro owner used hedge
    rcases List.mem_append.mp hedge with hold | hnew
    · obtain ⟨before, hbefore, hrelated⟩ := h.related owner used hold
      exact (model.grows_apply finding).related hbefore hrelated
    · split at hnew
      · rename_i hnoted
        obtain ⟨language, fact⟩ := finding
        cases fact with
        | uses user name =>
            cases List.mem_singleton.mp hnew
            obtain ⟨-, -, -, entity, hentity, hdependency⟩ := accepted_of_isNoted hnoted
            exact ⟨entity, hentity, Or.inl hdependency⟩
        | _ => exact absurd hnew List.not_mem_nil
      · exact absurd hnew List.not_mem_nil

/-- A run, with the edges of its trace. -/
theorem EdgesTold.applyAll {model : Model} {told : List (String × String)}
    (h : model.EdgesTold told) (hsound : model.Sound) (findings : List Finding) :
    (model.applyAll findings).EdgesTold (told ++ Finding.edges (model.noted findings)) := by
  induction findings generalizing model told with
  | nil => simpa [Finding.edges, noted, Model.applyAll] using h
  | cons finding rest ih =>
      have hrest := ih (h.apply hsound finding) (hsound.apply finding)
      have hedges : Finding.edges (model.noted (finding :: rest)) =
          (if finding.isNoted model then finding.fact.edge?.toList else []) ++
            Finding.edges ((finding.apply model).noted rest) := by
        rw [noted]
        split
        · rw [Finding.edges, List.filterMap_cons]
          cases finding.fact.edge? <;> rfl
        · rfl
      rw [hedges, ← List.append_assoc]
      exact hrest

end Model

namespace Session

/-- The session after some contributions, each of them in its own language. -/
def contributeAll (session : Session) (contributions : List Contribution) : Session :=
  contributions.foldl
    (fun session contribution =>
      (session.readAll contribution.source [contribution.language]).1) session

/-- Contributions are taken as the findings of all of them. -/
theorem contributeAll_eq (session : Session) (contributions : List Contribution) :
    session.contributeAll contributions =
      session.take (contributions.flatMap Contribution.findings) := by
  induction contributions generalizing session with
  | nil => simp [contributeAll, take, Model.applyAll, Model.noted]
  | cons contribution rest ih =>
      have hfirst : (session.readAll contribution.source [contribution.language]).1 =
          session.take contribution.findings := by
        rw [readAll]
        split <;> rfl
      show ((session.readAll contribution.source [contribution.language]).1).contributeAll rest = _
      rw [hfirst, ih, take_take, List.flatMap_cons]

/-- The trace of a run of contributions, in any languages and also with readings that break off,
agrees with the model in the end. It tells as many members as the model has. No edge is told twice;
every dependency is told by exactly one edge, and every other edge leads to a base or an interface
of the same entity. -/
theorem contributeAll_told (languages : List Language) (ignored : List String)
    (contributions : List Contribution) :
    let session := contributeAll { languages := languages, ignored := ignored } contributions
    let trace := Model.empty.noted (contributions.flatMap Contribution.findings)
    session.model = Model.ofContributions contributions ∧
      session.records = trace.map Record.ofFinding ∧
      (trace.countP fun finding => finding.fact.isMember) = session.model.memberCount ∧
      (∀ owner used, (Finding.edges trace).count (owner, used) ≤ 1) ∧
      (∀ entity ∈ session.model.entities, ∀ used ∈ entity.dependencies,
        (Finding.edges trace).count (entity.name, used) = 1) ∧
      ∀ edge ∈ Finding.edges trace, ∃ entity ∈ session.model.entities, entity.name = edge.1 ∧
        (edge.2 ∉ entity.dependencies → edge.2 ∈ entity.bases ∨ edge.2 ∈ entity.interfaces) := by
  intro session trace
  have hsession : session = take { languages := languages, ignored := ignored }
      (contributions.flatMap Contribution.findings) := contributeAll_eq _ _
  have hmodel : session.model =
      Model.empty.applyAll (contributions.flatMap Contribution.findings) := by rw [hsession]; rfl
  have hsound : session.model.Sound := hmodel ▸ Model.sound_empty.applyAll _
  have htold : session.model.EdgesTold (Finding.edges trace) := by
    rw [hmodel]
    exact Model.edgesTold_empty.applyAll Model.sound_empty _
  refine ⟨hmodel.trans (Model.ofContributions_eq contributions).symm, ?_, ?_, ?_, ?_, ?_⟩
  · rw [hsession]
    rfl
  · rw [hmodel, Model.memberCount_applyAll Model.sound_empty]
    exact (Nat.zero_add _).symm
  · exact fun owner used => List.nodup_iff_count_le_one.mp htold.distinct (owner, used)
  · intro entity hentity used hused
    refine List.count_eq_one_of_mem htold.distinct ?_
    exact htold.complete entity.name entity (hsound.find?_name hentity) used hused
  · rintro ⟨owner, used⟩ hedge
    obtain ⟨entity, hfind, hrelated⟩ := htold.related owner used hedge
    refine ⟨entity, List.mem_of_find?_eq_some hfind, by simpa using List.find?_some hfind, ?_⟩
    exact fun hno => hrelated.resolve_left hno

end Session

end ClassDiagram
