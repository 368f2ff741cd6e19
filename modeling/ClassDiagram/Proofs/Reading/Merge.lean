import ClassDiagram.Proofs.Reading.Order
import ClassDiagram.Proofs.Reading.PythonOwner

/-!
# Merging two sources of Python

A class of Python may be declared in two sources. Its kind is that of the source that comes first,
and a name that only gets a value is a field if that kind is an enumeration. So the fields of the
class are not always those that each of the sources gives it alone: where one source declares an
enumeration and the other does not, the values of both count or none of them does.

* `Model.mem_fieldNames`: the fields of an entity after any contributions.
* `Python.Merged`: the fields of both orders are those of either source.
* `Python.merged_iff`: exactly when two sources merge in this sense. All that is not a field comes
  out the same in both orders anyway.
* `Python.shade_not_merged`: two sources that do not merge.
-/

namespace ClassDiagram

namespace Fact

/-- The field that a fact tells of `owner`, whatever its kind. -/
def fieldOf? (owner : String) : Fact → Option String
  | field other name _ | parameterProperty other name _ | enumMember other name _ =>
    if other = owner then some name else none
  | _ => none

/-- The value in the body of `owner` that a fact tells. -/
def valueOf? (owner : String) : Fact → Option String
  | enumValue other name => if other = owner then some name else none
  | _ => none

/-- A fact offers a field to an entity if it tells one, or if it tells a value and the entity is an
enumeration. -/
theorem offersField_iff {fact : Fact} {kind : Kind} {owner name : String} :
    (∃ value, fact.offerAs? kind owner = some (.field value) ∧ value.name = name) ↔
      fact.fieldOf? owner = some name ∨ kind = .enum ∧ fact.valueOf? owner = some name := by
  cases fact with
  | enumValue other value =>
      by_cases hkind : kind = .enum <;> by_cases hother : other = owner <;>
        simp [hkind, hother, offerAs?, countsFor, offerTo?, feature?, fieldOf?, valueOf?]
  | field other value type | parameterProperty other value type | enumMember other value type =>
      by_cases hother : other = owner <;>
        simp [hother, offerAs?, countsFor, offerTo?, feature?, fieldOf?, valueOf?]
  | _ => simp [offerAs?, countsFor, offerTo?, feature?, fieldOf?, valueOf?]

/-- What else a fact offers does not depend on the kind of the entity. -/
theorem offerAs?_beside_fields {fact : Fact} {feature : Feature}
    (h : Entity.fieldOf? feature = none) (kind kind' : Kind) {owner : String} :
    fact.offerAs? kind owner = some feature ↔ fact.offerAs? kind' owner = some feature := by
  cases fact with
  | enumValue other value =>
      have hno : ∀ kind, (enumValue other value).offerAs? kind owner ≠ some feature := by
        intro kind heq
        have hoffer : (enumValue other value).offerAs? kind owner = none ∨
            (enumValue other value).offerAs? kind owner = some (.field ⟨value, ""⟩) := by
          by_cases hkind : kind = .enum <;> by_cases hother : other = owner <;>
            simp [hkind, hother, offerAs?, countsFor, offerTo?, feature?]
        rcases hoffer with hnone | hfield
        · exact absurd (hnone.symm.trans heq) (by simp)
        · cases hfield.symm.trans heq
          exact absurd h (by simp [Entity.fieldOf?])
      exact ⟨fun heq => absurd heq (hno kind), fun heq => absurd heq (hno kind')⟩
  | _ => rfl

end Fact

/-- The fields that some findings tell of a name, whatever its kind. -/
def fieldsTold (name : String) (findings : List Finding) : List String :=
  findings.filterMap fun finding => finding.fact.fieldOf? name

/-- The values that some findings tell of a name. -/
def valuesTold (name : String) (findings : List Finding) : List String :=
  findings.filterMap fun finding => finding.fact.valueOf? name

namespace Model

/-- The names of the fields that an entity has; a name that is not declared has none. -/
def fieldNames (model : Model) (name : String) : List String :=
  ((model.find? name).map fun entity => entity.fields.map Field.name).getD []

/-- An entity of a run has all features that any contribution offers to its name and that count for
the kind of its first declaration. -/
theorem find?_ofContributions_owned (contributions : List Contribution) (name : String) :
    (ofContributions contributions).find? name =
      (firstKind? name (contributions.flatMap Contribution.findings)).map fun kind =>
        Entity.gainAll { name := name, kind := kind }
          (offeredAs kind name (contributions.flatMap Contribution.findings)) := by
  have howned : Owned empty.names
      ((contributions.flatMap Contribution.findings).map Finding.fact) := by
    rw [List.map_flatMap]
    exact Owned.flatMap fun contribution _ => contribution.owned_findings
  rw [ofContributions_eq, find?_applyAll_owned howned]
  exact Option.map_map ..

/-- The fields of an entity after some contributions: what any of them tells as a field, and what
any of them tells as a value if the first declaration is one of an enumeration. -/
theorem mem_fieldNames {contributions : List Contribution} {name field : String} :
    field ∈ (ofContributions contributions).fieldNames name ↔
      ∃ kind, firstKind? name (contributions.flatMap Contribution.findings) = some kind ∧
        (field ∈ fieldsTold name (contributions.flatMap Contribution.findings) ∨
          kind = .enum ∧ field ∈ valuesTold name (contributions.flatMap Contribution.findings)) := by
  rw [fieldNames, find?_ofContributions_owned]
  cases firstKind? name (contributions.flatMap Contribution.findings) with
  | none => simp
  | some kind =>
      have hoffered : field ∈ ((offeredAs kind name
            (contributions.flatMap Contribution.findings)).filterMap Entity.fieldOf?).map Field.name ↔
          ∃ finding ∈ contributions.flatMap Contribution.findings,
            ∃ value, finding.fact.offerAs? kind name = some (.field value) ∧ value.name = field := by
        simp only [offeredAs, List.mem_map, List.mem_filterMap]
        constructor
        · rintro ⟨value, ⟨feature, ⟨finding, hfinding, hoffer⟩, hvalue⟩, hname⟩
          cases feature with
          | field _ =>
              cases hvalue
              exact ⟨finding, hfinding, value, hoffer, hname⟩
          | _ => exact absurd hvalue (by simp [Entity.fieldOf?])
        · rintro ⟨finding, hfinding, value, hoffer, hname⟩
          exact ⟨value, ⟨.field value, ⟨finding, hfinding, hoffer⟩, rfl⟩, hname⟩
      simp only [Option.map_some, Option.getD_some, Option.some.injEq, exists_eq_left',
        Entity.fields_gainAll, Entity.mem_keys_foldl_addNew, List.map_nil, List.not_mem_nil, false_or,
        hoffered, Fact.offersField_iff, fieldsTold, valuesTold, List.mem_filterMap]
      grind

/-- The entities of a name after the same findings in different orders are alike beside fields. -/
theorem alikeBesideFields_of_perm {contributions others : List Contribution}
    (hperm : contributions.Perm others) {name : String} {entity : Entity}
    (hentity : (ofContributions contributions).find? name = some entity) :
    ∃ twin, (ofContributions others).find? name = some twin ∧ entity.AlikeBesideFields twin := by
  have hfindings : (contributions.flatMap Contribution.findings).Perm
      (others.flatMap Contribution.findings) := hperm.flatMap_right _
  rw [find?_ofContributions_owned] at hentity
  obtain ⟨kind, hkind, rfl⟩ := Option.map_eq_some_iff.mp hentity
  have hdeclared := isSome_firstKind?_of_perm hfindings name
  rw [hkind] at hdeclared
  obtain ⟨kind', hkind'⟩ := Option.isSome_iff_exists.mp hdeclared.symm
  refine ⟨_, by rw [find?_ofContributions_owned, hkind', Option.map_some], ?_⟩
  refine Entity.alikeBesideFields_gainAll name kind kind' fun feature hfeature => ?_
  simp only [offeredAs, List.mem_filterMap, hfindings.mem_iff,
    Fact.offerAs?_beside_fields hfeature kind kind']

end Model

/-! ## Python -/

namespace Python

/-- The model of some sources in Python. -/
def modelOf (sources : List Source) : Model := Model.ofSources .python sources

/-- The fields of a class that a source tells by a type or in a constructor. -/
def fieldsIn (source : Source) (name : String) : List String :=
  fieldsTold name (source.read .python).findings

/-- The names in the body of a class that only get a value. -/
def valuesIn (source : Source) (name : String) : List String :=
  valuesTold name (source.read .python).findings

/-- Whether a class has the fields that either of two sources gives it alone and no others, whichever
of the two comes first. -/
def Merged (first second : Source) (name : String) : Prop :=
  ∀ field,
    (field ∈ (modelOf [first, second]).fieldNames name ↔
      field ∈ (modelOf [first]).fieldNames name ∨ field ∈ (modelOf [second]).fieldNames name) ∧
    (field ∈ (modelOf [second, first]).fieldNames name ↔
      field ∈ (modelOf [first]).fieldNames name ∨ field ∈ (modelOf [second]).fieldNames name)

/-- Whether each of two sources declares a class, and just one of them as an enumeration. -/
def Clash (first second : Source) (name : String) : Prop :=
  ∃ entity other, (modelOf [first]).find? name = some entity ∧
    (modelOf [second]).find? name = some other ∧ ¬ (entity.kind = .enum ↔ other.kind = .enum)

variable {first second source : Source} {name : String}

theorem told_of_undeclared (h : firstKind? name (source.read .python).findings = none)
    (field : String) : field ∉ fieldsIn source name ∧ field ∉ valuesIn source name := by
  have hnone : ∀ finding ∈ (source.read .python).findings,
      finding.fact.offerAs? .enum name = none :=
    (Contribution.owned_findings ⟨.python, source⟩).offerAs?_eq_none List.not_mem_nil h .enum
  have hno : ∀ finding ∈ (source.read .python).findings,
      ¬ (finding.fact.fieldOf? name = some field ∨
        Kind.enum = .enum ∧ finding.fact.valueOf? name = some field) := by
    intro finding hfinding htold
    obtain ⟨value, hoffer, _⟩ := Fact.offersField_iff.mpr htold
    exact absurd ((hnone finding hfinding).symm.trans hoffer) (by simp)
  simp only [fieldsIn, valuesIn, fieldsTold, valuesTold, List.mem_filterMap, not_exists, not_and]
  exact ⟨fun finding hfinding htold => hno finding hfinding (Or.inl htold),
    fun finding hfinding htold => hno finding hfinding (Or.inr ⟨rfl, htold⟩)⟩

theorem mem_fieldNames_one {field : String} :
    field ∈ (modelOf [source]).fieldNames name ↔
      ∃ kind, firstKind? name (source.read .python).findings = some kind ∧
        (field ∈ fieldsIn source name ∨ kind = .enum ∧ field ∈ valuesIn source name) := by
  have hfindings : [Contribution.mk .python source].flatMap Contribution.findings =
      (source.read .python).findings := List.append_nil _
  rw [modelOf, Model.ofSources, List.map_singleton, Model.mem_fieldNames, hfindings]
  rfl

theorem mem_fieldNames_two {field : String} :
    field ∈ (modelOf [first, second]).fieldNames name ↔
      ∃ kind, (firstKind? name (first.read .python).findings).or
          (firstKind? name (second.read .python).findings) = some kind ∧
        ((field ∈ fieldsIn first name ∨ field ∈ fieldsIn second name) ∨
          kind = .enum ∧ (field ∈ valuesIn first name ∨ field ∈ valuesIn second name)) := by
  have hfindings : [Contribution.mk .python first, .mk .python second].flatMap
      Contribution.findings = (first.read .python).findings ++ (second.read .python).findings :=
    congrArg _ (List.append_nil _)
  rw [modelOf, Model.ofSources, List.map_cons, List.map_singleton, Model.mem_fieldNames, hfindings]
  simp only [firstKind?, List.findSome?_append, fieldsTold, valuesTold, List.filterMap_append,
    List.mem_append, fieldsIn, valuesIn]

theorem clash_iff :
    Clash first second name ↔
      ∃ kind other, firstKind? name (first.read .python).findings = some kind ∧
        firstKind? name (second.read .python).findings = some other ∧
        ¬ (kind = .enum ↔ other = .enum) := by
  have hkind : ∀ source : Source, ((modelOf [source]).find? name).map Entity.kind =
      firstKind? name (source.read .python).findings := by
    intro source
    rw [modelOf, Model.ofSources, Model.ofContributions_eq, Model.kind_applyAll]
    exact congrArg (firstKind? name) (List.append_nil _)
  rw [← hkind first, ← hkind second]
  simp only [Clash, Option.map_eq_some_iff]
  grind

/-- Two sources merge exactly if they do not clash or if the clash does not show: every name that
only gets a value in one of them is also a field of a type in one of them. All else that is known of
the class, its kind apart, does not depend on which source comes first. -/
theorem merged_iff (first second : Source) (name : String) :
    (Merged first second name ↔
      (Clash first second name → ∀ value,
        value ∈ valuesIn first name ∨ value ∈ valuesIn second name →
          value ∈ fieldsIn first name ∨ value ∈ fieldsIn second name)) ∧
    ∀ entity, (modelOf [first, second]).find? name = some entity →
      ∃ twin, (modelOf [second, first]).find? name = some twin ∧
        entity.AlikeBesideFields twin := by
  constructor
  · simp only [Merged, clash_iff, mem_fieldNames_one, mem_fieldNames_two]
    cases hfirst : firstKind? name (first.read .python).findings with
    | none =>
        have hnothing := told_of_undeclared hfirst
        cases firstKind? name (second.read .python).findings with
        | none => simp
        | some kind => simp [hnothing]
    | some kind =>
        cases hsecond : firstKind? name (second.read .python).findings with
        | none =>
            have hnothing := told_of_undeclared hsecond
            simp [hnothing]
        | some other =>
            -- values are fields of an enum only, and the first declaration gives the kind
            by_cases hkind : kind = .enum <;> by_cases hother : other = .enum <;>
              simp [hkind, hother] <;> grind
  · intro entity hentity
    refine Model.alikeBesideFields_of_perm ?_ hentity
    exact List.Perm.swap _ _ _

/-- A class that is declared as an enumeration. -/
def shadeEnum : Source := { text := "class Shade(Enum):\n    DARK = 1\n".toList }

/-- The same class, declared as a plain one. -/
def shadeClass : Source := { text := "class Shade:\n    LIGHT = 2\n".toList }

/-- The value in the plain declaration is no field alone, but becomes one behind the enumeration, and
the one in the enumeration is lost behind the plain declaration. -/
theorem shade_not_merged :
    (modelOf [shadeEnum]).fieldNames "Shade" = ["DARK"] ∧
      (modelOf [shadeClass]).fieldNames "Shade" = [] ∧
      (modelOf [shadeEnum, shadeClass]).fieldNames "Shade" = ["DARK", "LIGHT"] ∧
      (modelOf [shadeClass, shadeEnum]).fieldNames "Shade" = [] ∧
      ¬ Merged shadeEnum shadeClass "Shade" := by
  have hread : (modelOf [shadeEnum]).fieldNames "Shade" = ["DARK"] ∧
      (modelOf [shadeClass]).fieldNames "Shade" = [] ∧
      (modelOf [shadeEnum, shadeClass]).fieldNames "Shade" = ["DARK", "LIGHT"] ∧
      (modelOf [shadeClass, shadeEnum]).fieldNames "Shade" = [] := by
    decide +kernel
  refine ⟨hread.1, hread.2.1, hread.2.2.1, hread.2.2.2, fun hmerged => ?_⟩
  have hlight := (hmerged "LIGHT").1
  rw [hread.1, hread.2.1, hread.2.2.1] at hlight
  exact absurd hlight (by decide)

end Python

end ClassDiagram
