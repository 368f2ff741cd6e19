import ClassDiagram.Proofs.Reading.Owner

/-!
# The order of contributions

A run of contributions gives each declared name all that any of them offers to it. So contributions
in C#, TypeScript and Java give the same diagram in whatever order they come: only the order of
entities and members, the kind of an entity declared more than once, and the type of a member
declared more than once are a matter of who came first.

* `Entity.Alike`, `Model.Alike`: the same members and relations, in any order.
* `Entity.alike_gainAll`: what an entity gains is a matter of which features are offered.
* `Model.Alike.edges`: models that are alike have the same edges.
* `Model.alike_ofContributions_of_perm`: contributions in any order.
-/

namespace ClassDiagram

namespace Entity

/-- Two entities with the same name, relations, names of fields and signatures of methods. -/
structure Alike (entity other : Entity) : Prop where
  name : entity.name = other.name
  fields : ∀ name, name ∈ entity.fields.map Field.name ↔ name ∈ other.fields.map Field.name
  methods : ∀ signature, signature ∈ entity.methods.map Method.signature ↔
    signature ∈ other.methods.map Method.signature
  bases : entity.bases = other.bases
  interfaces : entity.interfaces = other.interfaces
  dependencies : entity.dependencies = other.dependencies

/-- Entities are alike in both directions. -/
theorem Alike.symm {entity other : Entity} (h : entity.Alike other) : other.Alike entity where
  name := h.name.symm
  fields := fun name => (h.fields name).symm
  methods := fun signature => (h.methods signature).symm
  bases := h.bases.symm
  interfaces := h.interfaces.symm
  dependencies := h.dependencies.symm

/-- Two entities with the same relations and signatures of methods. -/
structure AlikeBesideFields (entity other : Entity) : Prop where
  methods : ∀ signature, signature ∈ entity.methods.map Method.signature ↔
    signature ∈ other.methods.map Method.signature
  bases : entity.bases = other.bases
  interfaces : entity.interfaces = other.interfaces
  dependencies : entity.dependencies = other.dependencies

/-- Two declarations of a name that are offered the same features beside fields, in any order and
number, come to the same relations and signatures of methods, whatever their kinds. -/
theorem alikeBesideFields_gainAll (name : String) (kind kind' : Kind)
    {features others : List Feature}
    (h : ∀ feature, fieldOf? feature = none → (feature ∈ features ↔ feature ∈ others)) :
    AlikeBesideFields (gainAll { name := name, kind := kind } features)
      (gainAll { name := name, kind := kind' } others) := by
  have hbases : (gainAll { name := name, kind := kind } features).bases =
      (gainAll { name := name, kind := kind' } others).bases := by
    ext base
    rw [mem_bases_gainAll, mem_bases_gainAll, h (.base base) rfl]
    rfl
  have hinterfaces : (gainAll { name := name, kind := kind } features).interfaces =
      (gainAll { name := name, kind := kind' } others).interfaces := by
    ext interface
    rw [mem_interfaces_gainAll, mem_interfaces_gainAll, h (.interface interface) rfl]
    rfl
  have hmethods : ∀ value, value ∈ features.filterMap methodOf? ↔
      value ∈ others.filterMap methodOf? := by
    have hoffered : ∀ (value : Method) (offered : List Feature),
        value ∈ offered.filterMap methodOf? ↔ Feature.method value ∈ offered := by
      intro value offered
      rw [List.mem_filterMap]
      refine ⟨?_, fun hmem => ⟨.method value, hmem, rfl⟩⟩
      rintro ⟨feature, hmem, hvalue⟩
      cases feature with
      | method _ => exact Option.some.inj hvalue ▸ hmem
      | _ => exact absurd hvalue (by simp [methodOf?])
    intro value
    rw [hoffered, hoffered, h (.method value) rfl]
  refine ⟨?_, hbases, hinterfaces, ?_⟩
  · intro signature
    rw [methods_gainAll, methods_gainAll, mem_keys_foldl_addNew, mem_keys_foldl_addNew]
    simp only [List.mem_map, hmethods]
  · ext used
    rw [mem_dependencies_gainAll (sound_new name kind),
      mem_dependencies_gainAll (sound_new name kind'), h (.dependency used) rfl, hbases, hinterfaces]
    rfl

/-- Two declarations of a name that are offered the same features, in any order and number, come to
entities that are alike, whatever their kinds. -/
theorem alike_gainAll (name : String) (kind kind' : Kind) {features others : List Feature}
    (h : ∀ feature, feature ∈ features ↔ feature ∈ others) :
    Alike (gainAll { name := name, kind := kind } features)
      (gainAll { name := name, kind := kind' } others) := by
  have hrest := alikeBesideFields_gainAll name kind kind' fun feature _ => h feature
  refine ⟨by simp, ?_, hrest.methods, hrest.bases, hrest.interfaces, hrest.dependencies⟩
  intro field
  rw [fields_gainAll, fields_gainAll, mem_keys_foldl_addNew, mem_keys_foldl_addNew]
  simp only [List.mem_map, List.mem_filterMap, h]

end Entity

namespace Model

/-- Two models of the same names, in which the entities of a name are alike. -/
structure Alike (model other : Model) : Prop where
  names : ∀ name, name ∈ model.names ↔ name ∈ other.names
  entities : ∀ entity ∈ model.entities, ∀ twin ∈ other.entities,
    entity.name = twin.name → entity.Alike twin

namespace Alike

variable {model other : Model}

/-- Models are alike in both directions. -/
theorem symm (h : model.Alike other) : other.Alike model where
  names := fun name => (h.names name).symm
  entities := fun twin htwin entity hentity hname =>
    (h.entities entity hentity twin htwin hname.symm).symm

/-- Each entity has one that is alike in the other model. -/
theorem exists_twin (h : model.Alike other) {entity : Entity} (hentity : entity ∈ model.entities) :
    ∃ twin ∈ other.entities, entity.Alike twin := by
  obtain ⟨twin, htwin, hname⟩ :=
    List.mem_map.mp ((h.names entity.name).mp (List.mem_map_of_mem hentity))
  exact ⟨twin, htwin, h.entities entity hentity twin htwin hname.symm⟩

/-- Edges that an entity has by its relations are edges of a model that is alike. -/
theorem mem_edges (h : model.Alike other) {edge : String × String}
    (edges : Entity → List (String × String))
    (hedges : ∀ entity twin, Entity.Alike entity twin → edges entity = edges twin)
    (hmem : edge ∈ model.entities.flatMap edges) : edge ∈ other.entities.flatMap edges := by
  obtain ⟨entity, hentity, hedge⟩ := List.mem_flatMap.mp hmem
  obtain ⟨twin, htwin, halike⟩ := h.exists_twin hentity
  exact List.mem_flatMap.mpr ⟨twin, htwin, hedges entity twin halike ▸ hedge⟩

/-- Edges that depend on what is alike are the same. -/
theorem mem_edges_iff (h : model.Alike other) {edge : String × String}
    {edges : Entity → List (String × String)}
    (hedges : ∀ entity twin, Entity.Alike entity twin → edges entity = edges twin) :
    edge ∈ model.entities.flatMap edges ↔ edge ∈ other.entities.flatMap edges :=
  ⟨h.mem_edges edges hedges, h.symm.mem_edges edges hedges⟩

/-- Models that are alike declare the same names. -/
theorem contains_eq (h : model.Alike other) : model.contains = other.contains := by
  funext name
  rw [Bool.eq_iff_iff, contains_iff, contains_iff, h.names]

/-- Models that are alike have the same edges. -/
theorem edges (h : model.Alike other) (edge : String × String) :
    (edge ∈ model.inheritances ↔ edge ∈ other.inheritances) ∧
      (edge ∈ model.realizations ↔ edge ∈ other.realizations) ∧
      (edge ∈ model.uses ↔ edge ∈ other.uses) := by
  refine ⟨?_, ?_, ?_⟩
  · refine h.mem_edges_iff fun entity twin halike => ?_
    rw [halike.bases, halike.name]
  · refine h.mem_edges_iff fun entity twin halike => ?_
    rw [halike.interfaces, halike.name]
  · unfold uses
    rw [h.contains_eq]
    refine h.mem_edges_iff fun entity twin halike => ?_
    rw [halike.dependencies, halike.name]

end Alike

/-! ## Runs -/

/-- An entity of a run of contributions has all features that any of them offers to its name. -/
theorem find?_ofContributions {contributions : List Contribution}
    (h : ∀ contribution ∈ contributions, contribution.language ≠ .python) (name : String) :
    (ofContributions contributions).find? name =
      (firstKind? name (contributions.flatMap Contribution.findings)).map fun kind =>
        Entity.gainAll { name := name, kind := kind }
          (offered name (contributions.flatMap Contribution.findings)) := by
  have hscoped : Scoped empty.names
      ((contributions.flatMap Contribution.findings).map Finding.fact) := by
    rw [List.map_flatMap]
    exact Scoped.flatMap fun contribution hmem => Contribution.scoped_findings (h _ hmem)
  rw [ofContributions_eq, find?_applyAll hscoped]
  exact Option.map_map ..

/-- An entity has gained what all the contributions offer to its name. -/
theorem exists_gainAll_of_mem {contributions : List Contribution}
    (h : ∀ contribution ∈ contributions, contribution.language ≠ .python) {entity : Entity}
    (hentity : entity ∈ (ofContributions contributions).entities) :
    ∃ kind, entity = Entity.gainAll { name := entity.name, kind := kind }
      (offered entity.name (contributions.flatMap Contribution.findings)) := by
  have hsound : (ofContributions contributions).Sound := by
    rw [ofContributions_eq]
    exact sound_empty.applyAll _
  have hfind := hsound.find?_name hentity
  rw [find?_ofContributions h, Option.map_eq_some_iff] at hfind
  obtain ⟨kind, _, heq⟩ := hfind
  exact ⟨kind, heq.symm⟩

/-- Whether a name is declared does not depend on the order of findings. -/
theorem isSome_firstKind?_of_perm {findings others : List Finding} (h : findings.Perm others)
    (name : String) : (firstKind? name findings).isSome = (firstKind? name others).isSome := by
  rw [Bool.eq_iff_iff, firstKind?, firstKind?, List.findSome?_isSome_iff,
    List.findSome?_isSome_iff]
  simp only [h.mem_iff]

/-- The names of a model are those that some contribution declares. -/
theorem mem_names_ofContributions (contributions : List Contribution) (name : String) :
    name ∈ (ofContributions contributions).names ↔
      (firstKind? name (contributions.flatMap Contribution.findings)).isSome = true := by
  rw [← contains_iff, contains, ← Option.isSome_map (f := Entity.kind), ofContributions_eq,
    kind_applyAll]
  rfl

/-- Contributions in C#, TypeScript and Java, also those that break off, give models that are alike
in whatever order they come, and so the same edges. -/
theorem alike_ofContributions_of_perm {contributions others : List Contribution}
    (hperm : contributions.Perm others)
    (hlanguage : ∀ contribution ∈ contributions, contribution.language ≠ .python) :
    (ofContributions contributions).Alike (ofContributions others) ∧
      ∀ edge,
        (edge ∈ (ofContributions contributions).inheritances ↔
          edge ∈ (ofContributions others).inheritances) ∧
        (edge ∈ (ofContributions contributions).realizations ↔
          edge ∈ (ofContributions others).realizations) ∧
        (edge ∈ (ofContributions contributions).uses ↔
          edge ∈ (ofContributions others).uses) := by
  have hlanguage' : ∀ contribution ∈ others, contribution.language ≠ .python :=
    fun contribution hmem => hlanguage contribution (hperm.mem_iff.mpr hmem)
  have hfindings : (contributions.flatMap Contribution.findings).Perm
      (others.flatMap Contribution.findings) := hperm.flatMap_right _
  have halike : (ofContributions contributions).Alike (ofContributions others) := by
    refine ⟨?_, ?_⟩
    · intro name
      rw [mem_names_ofContributions, mem_names_ofContributions,
        isSome_firstKind?_of_perm hfindings]
    · intro entity hentity twin htwin hname
      -- both have gained the same offers, in an order that does not matter for what is alike
      obtain ⟨kind, heq⟩ := exists_gainAll_of_mem hlanguage hentity
      obtain ⟨kind', heq'⟩ := exists_gainAll_of_mem hlanguage' htwin
      rw [heq, heq', ← hname]
      exact Entity.alike_gainAll _ _ _ fun feature => (hfindings.filterMap _).mem_iff
  exact ⟨halike, halike.edges⟩

/-- One class in three languages: as an heir, as a user of the same type, and in a syntax tree whose
reading breaks off behind the declaration. -/
def kennel : List Contribution := [
  ⟨.cSharp, { text := "class Dog : Pet \x7b Bone toy; \x7d class Bone \x7b \x7d".toList }⟩,
  ⟨.typeScript, { text := "interface Dog \x7b friend: Pet; bone: Bone; \x7d".toList }⟩,
  ⟨.java, {
    text := "class Dog".toList
    tree := some (.mk { type := "program", start := 0, stop := 9 } [
      .mk { type := "class_declaration", start := 0, stop := 9 } [
        .mk { type := "identifier", start := 6, stop := 9, role := some "name" } [],
        .mk { type := "superclass", start := 9, stop := 9, role := some "superclass" } [
          .mk { type := "generic_type", start := 9, stop := 9 } []]]]) }⟩]

theorem kennel_reversed :
    (ofContributions kennel).names = ["Dog", "Bone"] ∧
      (ofContributions kennel).inheritances = [("Pet", "Dog")] ∧
      (ofContributions kennel).uses = [("Dog", "Bone")] ∧
      (ofContributions kennel).Alike (ofContributions kennel.reverse) := by
  have hread : (ofContributions kennel).names = ["Dog", "Bone"] ∧
      (ofContributions kennel).inheritances = [("Pet", "Dog")] ∧
      (ofContributions kennel).uses = [("Dog", "Bone")] := by
    decide +kernel
  refine ⟨hread.1, hread.2.1, hread.2.2, ?_⟩
  exact (alike_ofContributions_of_perm (List.reverse_perm kennel).symm (by decide)).1

end Model

end ClassDiagram
