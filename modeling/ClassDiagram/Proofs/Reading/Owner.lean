import ClassDiagram.Proofs.Model.Scoped

/-!
# Owners of facts

Readers of C#, TypeScript and Java tell a declaration first, then facts about what it declares, and
about nothing else. So what they find in a source is scoped, also where the reading breaks off.

* `CSharp.scoped_facts`, `TypeScript.scoped_facts`, `Java.scoped_read`: for each of the languages.
* `Contribution.scoped_findings`: for every contribution in one of them.
-/

namespace ClassDiagram

/-! ## C# -/

namespace CSharp

variable (owner : String)

@[simp] theorem allAbout_usesOf (expr : Text) : AllAbout owner (usesOf owner expr) :=
  ClassDiagram.allAbout_usesOf _ _

@[simp] theorem allAbout_fieldFacts (name type : Text) :
    AllAbout owner (fieldFacts owner name type) :=
  allAbout_ofField _ _ _

/-- What stands before a value tells a field of the owner, or nothing. -/
@[simp] theorem allAbout_headFacts (head : Text) : AllAbout owner (headFacts owner head) := by
  unfold headFacts
  split <;> simp

@[simp] theorem allAbout_methodFacts (name result : Text) (params : List Text) :
    AllAbout owner (methodFacts owner name result params) :=
  allAbout_ofMethod _ _ _ _

/-- A statement tells methods and fields of the type in whose body it stands. -/
theorem allAbout_statementFacts (statement : Text) :
    AllAbout owner (statementFacts owner statement) := by
  have hcallable : ∀ text paren, AllAbout owner (callableFacts owner text paren) := by
    intro text paren
    unfold callableFacts
    dsimp only
    split
    · simp
    · split <;> simp
  have hdeclarators : ∀ text, AllAbout owner (declaratorFacts owner text) := by
    intro text
    unfold declaratorFacts
    split
    · simp
    · split
      · simp
      · refine allAbout_append.mpr ⟨by simp, allAbout_flatMap.mpr fun other _ => ?_⟩
        dsimp only
        split <;> simp
  -- a statement is a callable, a property with a block or a list of declarators
  unfold statementFacts
  dsimp only
  split
  · simp
  · simp
  · split
    · exact hcallable _ _
    · split
      · simp
      · split
        · simp
        · exact hdeclarators _

/-- Both passes over a body, that by statements and that by lines, are about its owner. -/
theorem allAbout_memberFacts (body : Text) : AllAbout owner (memberFacts owner body) := by
  refine allAbout_append.mpr ⟨allAbout_flatMap.mpr fun statement _ =>
    allAbout_statementFacts owner statement, allAbout_flatMap.mpr fun line _ => ?_⟩
  unfold lineFacts
  dsimp only
  split
  · split <;> simp
  · split
    · exact allAbout_statementFacts owner _
    · simp

theorem allAbout_enumFacts (body : Text) : AllAbout owner (enumFacts owner body) := by
  refine allAbout_flatMap.mpr fun entry _ => ?_
  dsimp only
  split <;> simp [Fact.About]

/-- Parameters, bases and constraints in a header are told of the type that it declares. -/
theorem allAbout_headerFacts (keyword : String) (header : Text) :
    AllAbout owner (headerFacts keyword owner header) := by
  have hconstraints : ∀ text, AllAbout owner (constraintFacts owner text) := by
    simp [constraintFacts]
  have hprimary : ∀ params, AllAbout owner (primaryFacts keyword owner params) := by
    intro params
    unfold primaryFacts
    split <;> simp
  have hbase : ∀ isBase entry, AllAbout owner (baseFacts owner isBase entry) := by
    intro isBase entry
    unfold baseFacts
    split
    split
    · simp
    · split <;> simp [Fact.About]
  have hbases : ∀ list, AllAbout owner (baseListFacts keyword owner list) := by
    intro list
    unfold baseListFacts
    split
    · simp
    · simp [hbase]
  -- a base list may have constraints behind it, and constraints may stand without a base list
  unfold headerFacts
  extract_lets text primary
  split
  extract_lets lead rest
  refine allAbout_append.mpr ⟨?_, ?_⟩
  · unfold lead
    split
    · exact hprimary _
    · simp
  · split
    · split
      · exact allAbout_append.mpr ⟨hconstraints _, hbases _⟩
      · exact hbases _
    · exact hconstraints _

/-- A body that is closed tells of its owner alone. -/
theorem allAbout_bodyFacts? {keyword : String} {rest : Text} {start : Nat} {members : List Fact}
    (h : bodyFacts? keyword owner rest start = some members) : AllAbout owner members := by
  obtain ⟨close, _, rfl⟩ := Option.map_eq_some_iff.mp h
  dsimp only
  split
  · exact allAbout_enumFacts owner _
  · exact allAbout_memberFacts owner _

/-- Every header opens a block of facts about what it declares, up to the next header. -/
theorem scoped_factsFrom (offset : Nat) (text : Text) : Scoped [] (factsFrom offset text) := by
  fun_induction factsFrom offset text with
  | case1 => exact .nil
  | case2 offset text header _ owner place behind stop declaration members hmembers _ ih =>
      refine Scoped.append (Scoped.block (allAbout_append.mpr ⟨?_, ?_⟩)) ih
      · exact allAbout_headerFacts owner _ _
      · exact allAbout_bodyFacts? owner hmembers
  | case3 offset text header _ owner place behind stop declaration _ _ ih =>
      -- the note on the open body belongs to the block of its owner
      have hopen : Scoped [] (declaration ++ [.openBody owner]) :=
        Scoped.block (allAbout_append.mpr
          ⟨allAbout_headerFacts owner _ _, allAbout_cons.mpr ⟨trivial, allAbout_nil⟩⟩)
      have hall := hopen.append ih
      rwa [List.append_assoc] at hall
  | case4 offset text header _ owner place behind stop hasBody _ declaration _ ih =>
      exact (Scoped.block (allAbout_headerFacts owner _ _)).append ih

theorem scoped_facts (source : Text) : Scoped [] (facts source) := scoped_factsFrom 0 _

end CSharp

/-! ## TypeScript -/

namespace TypeScript

variable (owner : String)

@[simp] theorem allAbout_usesOf (expr : Text) : AllAbout owner (usesOf owner expr) :=
  ClassDiagram.allAbout_usesOf _ _

@[simp] theorem allAbout_fieldFacts (name type : Text) :
    AllAbout owner (fieldFacts owner name type) :=
  allAbout_ofField _ _ _

@[simp] theorem allAbout_methodFacts (name result : Text) (params : List Text) :
    AllAbout owner (methodFacts owner name result params) :=
  allAbout_ofMethod _ _ _ _

/-- A constructor tells its parameters, and itself as a method, of its owner. -/
theorem allAbout_constructorFacts (text : Text) : AllAbout owner (constructorFacts owner text) := by
  refine allAbout_append.mpr ⟨allAbout_flatMap.mpr fun param _ => ?_, by simp⟩
  refine allAbout_append.mpr ⟨by simp, ?_⟩
  split <;> simp [Fact.About]

theorem allAbout_accessorFacts (reads : Bool) (name text : Text) :
    AllAbout owner (accessorFacts owner reads name text) := by
  unfold accessorFacts
  split <;> simp

theorem allAbout_callableFacts (name text : Text) :
    AllAbout owner (callableFacts owner name text) := by
  unfold callableFacts
  extract_lets params
  split
  · split <;> simp
  · simp

/-- A name with a type or a value is a field or a method of the owner. -/
theorem allAbout_valueFacts (name rest : Text) : AllAbout owner (valueFacts owner name rest) := by
  unfold valueFacts
  split
  · dsimp only
    split <;> simp
  · split <;> simp
  · simp

/-- Whatever a unit of a body is, it tells of the owner. -/
theorem allAbout_memberFacts (shape : Bool) (body : Text) :
    AllAbout owner (memberFacts owner shape body) := by
  refine allAbout_flatMap.mpr fun unit _ => ?_
  unfold unitFacts
  dsimp only
  split
  · simp
  · split
    · exact allAbout_constructorFacts owner _
    · exact allAbout_accessorFacts owner _ _ _
    · split
      · simp
      · exact allAbout_callableFacts owner _ _
    · split
      · exact allAbout_valueFacts owner _ _
      · simp

theorem allAbout_bodyFacts (keyword : String) (body : Text) :
    AllAbout owner (bodyFacts keyword owner body) := by
  unfold bodyFacts
  split
  · refine allAbout_flatMap.mpr fun entry _ => ?_
    dsimp only
    split <;> simp [Fact.About]
  · exact allAbout_memberFacts owner _ _

/-- The shapes in the right side of an alias tell their members of the alias. -/
theorem allAbout_shapes (text : Text) : AllAbout owner (shapes owner text).1 := by
  fun_induction shapes owner text with
  | case1 => simp
  | case2 rest close later outside heq _ ih =>
      rw [heq] at ih
      exact allAbout_append.mpr ⟨allAbout_memberFacts owner _ _, ih⟩
  | case3 => simp [Fact.About]
  | case4 c rest _ later outside heq ih =>
      rw [heq] at ih
      exact ih

/-- What an alias tells is scoped: it declares itself before its shapes. -/
theorem scoped_aliasFacts (header : Header) : Scoped [] (aliasFacts header) := by
  unfold aliasFacts
  split
  · split
    · exact .block (allAbout_append.mpr ⟨allAbout_shapes _ _, by simp⟩)
    · exact .nil
  · exact .nil

/-- Bases and interfaces are told of the type that the header declares. -/
theorem allAbout_headerFacts (header : Text) : AllAbout owner (headerFacts owner header) := by
  unfold headerFacts
  refine allAbout_append.mpr ⟨?_, ?_⟩ <;>
    exact allAbout_flatMap.mpr fun entry _ => allAbout_cons.mpr ⟨rfl, by simp⟩

theorem allAbout_typeParameterFacts (params : Text) :
    AllAbout owner (typeParameterFacts owner params) := by
  refine allAbout_flatMap.mpr fun param _ => ?_
  dsimp only
  split <;> simp

/-- Each declaration is a block of its own, also without a body that is closed. -/
theorem scoped_declarationFacts (text : Text) : Scoped [] (declarationFacts text) := by
  -- what stands before the body is the same in all three cases
  have hlead : ∀ owner params bases,
      AllAbout owner (typeParameterFacts owner params ++ headerFacts owner bases) :=
    fun owner _ _ => allAbout_append.mpr
      ⟨allAbout_typeParameterFacts owner _, allAbout_headerFacts owner _⟩
  fun_induction declarationFacts text with
  | case1 => exact .nil
  | case2 _ header _ owner params behind start bases declaration _ ih =>
      exact (Scoped.block (hlead owner _ _)).append ih
  | case3 _ header _ owner params behind start bases declaration place _ _ ih =>
      have hopen : Scoped [] (declaration ++ [.openBody owner]) :=
        Scoped.block (allAbout_append.mpr
          ⟨hlead owner _ _, allAbout_cons.mpr ⟨trivial, allAbout_nil⟩⟩)
      have hall := hopen.append ih
      rwa [List.append_assoc] at hall
  | case4 _ header _ owner params behind start bases declaration place _ close _ ih =>
      exact (Scoped.block (allAbout_append.mpr
        ⟨hlead owner _ _, allAbout_bodyFacts owner _ _⟩)).append ih

/-- What a source tells is scoped, the aliases before the other declarations. -/
theorem scoped_facts (source : Text) : Scoped [] (facts source) :=
  (Scoped.flatMap fun header _ => scoped_aliasFacts header).append (scoped_declarationFacts _)

end TypeScript

/-! ## Java -/

namespace Java

/-- The facts that some steps tell, those behind a fault included. -/
def told (steps : List Step) : List Fact := steps.filterMap Except.toOption

@[simp] theorem told_append (first second : List Step) :
    told (first ++ second) = told first ++ told second :=
  List.filterMap_append

/-- The steps of several items tell what those of each item tell, in order. -/
@[simp] theorem told_flatMap {Item : Type} (items : List Item) (steps : Item → List Step) :
    told (items.flatMap steps) = items.flatMap fun item => told (steps item) :=
  List.filterMap_flatMap

/-- A reading tells the facts of its steps up to the first fault. -/
theorem facts_ofSteps_initial (language : Language) (steps : List Step) :
    (Reading.ofSteps language steps).findings.map Finding.fact <+: told steps := by
  induction steps with
  | nil => exact List.prefix_rfl
  | cons step rest ih =>
      cases step with
      | error fault => exact List.nil_prefix
      | ok fact => exact List.cons_prefix_cons.mpr ⟨rfl, ih⟩

variable (source : List UInt8) (owner : String)

/-! What the parts of a declaration tell is said once for every property of facts: it holds of all
that is told if it holds of the facts that the part can make. -/

section Told

variable {holds : Fact → Prop}

/-- A step without a fault tells its fact, if it has one. -/
theorem forall_told_ok {told? : Option Fact} (h : ∀ fact ∈ told?, holds fact) :
    ∀ fact ∈ told (steps (.ok told?)), holds fact := by
  cases told? with
  | none => exact fun _ hfact => absurd hfact List.not_mem_nil
  | some fact => exact List.forall_mem_singleton.mpr (h fact rfl)

/-- A fault tells nothing. -/
theorem forall_told_bind {Part : Type} {part : Except Fault Part}
    {tell : Part → Except Fault (Option Fact)}
    (h : ∀ value, ∀ fact ∈ told (steps (tell value)), holds fact) :
    ∀ fact ∈ told (steps (part >>= tell)), holds fact := by
  cases part with
  | error fault => exact fun _ hfact => absurd hfact List.not_mem_nil
  | ok value => exact h value

/-- All that is told of a part is what is made of its value. -/
theorem forall_told_map {Part : Type} {part : Except Fault Part} {tell : Part → Option Fact}
    (h : ∀ value, ∀ fact ∈ tell value, holds fact) :
    ∀ fact ∈ told (steps (part.map tell)), holds fact := by
  cases part with
  | error fault => exact fun _ hfact => absurd hfact List.not_mem_nil
  | ok value => exact forall_told_ok (h value)

/-- A field that is told is a field of the owner. -/
theorem forall_fieldFact (h : ∀ name type, holds (.field owner name type)) (name type : Text) :
    ∀ fact ∈ fieldFact owner name type, holds fact := by
  unfold fieldFact
  split
  · simp
  · rintro fact ⟨⟩
    exact h _ _

/-- A clause tells relations only, one for each entry that has a name. -/
theorem forall_told_clauseSteps {relation : String → Fact} (h : ∀ name, holds (relation name))
    (clause : Node) : ∀ fact ∈ told (clauseSteps source relation clause), holds fact := by
  rw [clauseSteps, told_flatMap]
  refine List.forall_mem_flatMap.mpr fun entry _ => forall_told_bind fun name => ?_
  refine forall_told_ok ?_
  split
  · simp
  · rintro fact ⟨⟩
    exact h _

/-- A declaration of fields tells fields of the owner only, perhaps several of one type. -/
theorem forall_told_fieldSteps (h : ∀ name type, holds (.field owner name type)) (node : Node) :
    ∀ fact ∈ told (fieldSteps source owner node), holds fact := by
  unfold fieldSteps
  split
  · exact fun _ hfact => absurd hfact List.not_mem_nil
  · rw [told_flatMap]
    exact List.forall_mem_flatMap.mpr fun declarator _ =>
      forall_told_map fun name => forall_fieldFact owner h name _

/-- A method is told of the owner once its name, its type and its parameters are known. -/
theorem forall_told_methodFact (h : ∀ value, holds (.method owner value)) (node : Node) :
    ∀ fact ∈ told (steps ((methodFact source owner node).map some)), holds fact := by
  change ∀ fact ∈ told (steps (some <$> methodFact source owner node)), holds fact
  simp only [methodFact, map_bind, map_pure]
  refine forall_told_bind fun name => forall_told_bind fun type => ?_
  refine forall_told_bind fun params => forall_told_ok ?_
  rintro fact ⟨⟩
  exact h _

/-- The components of a record are told as its fields. -/
theorem forall_told_componentSteps (h : ∀ name type, holds (.field owner name type)) (node : Node) :
    ∀ fact ∈ told (componentSteps source owner node), holds fact := by
  rw [componentSteps, told_flatMap]
  refine List.forall_mem_flatMap.mpr fun param _ => ?_
  refine forall_told_bind fun name => forall_told_bind fun type => ?_
  exact forall_told_ok (forall_fieldFact owner h name type)

/-- Whether a property holds of every member of `owner`. -/
structure OfMembers (holds : Fact → Prop) : Prop where
  field : ∀ name type, holds (.field owner name type)
  enumMember : ∀ name label, holds (.enumMember owner name label)
  method : ∀ value, holds (.method owner value)

mutual

/-- A body tells members of the owner only. -/
theorem forall_told_memberSteps (h : OfMembers owner holds) :
    ∀ body : Node, ∀ fact ∈ told (memberSteps source owner body), holds fact
  | .mk _ children => by
      rw [memberSteps]
      exact forall_told_memberStepsAmong h children

/-- So do its children in a row; the declarations behind the constants of an enumeration are a
body within the body. -/
theorem forall_told_memberStepsAmong (h : OfMembers owner holds) :
    ∀ members : List Node, ∀ fact ∈ told (memberStepsAmong source owner members), holds fact
  | [] => fun _ hfact => absurd hfact List.not_mem_nil
  | member :: rest => by
      have hconstant : ∀ name : Text, ∀ fact ∈ (if name.isEmpty then none
          else some (Fact.enumMember owner (String.ofList name) (String.ofList name)) : Option Fact),
          holds fact := by
        intro name
        split
        · simp
        · rintro fact ⟨⟩
          exact h.enumMember _ _
      rw [memberStepsAmong, told_append]
      refine List.forall_mem_append.mpr ⟨?_, forall_told_memberStepsAmong h rest⟩
      -- by the type of the node: tokens, constants, the inner body, fields, methods, all else
      split_ifs
      · exact fun _ hfact => absurd hfact List.not_mem_nil
      · exact forall_told_map hconstant
      · exact forall_told_memberSteps h member
      · exact forall_told_fieldSteps source owner h.field member
      · exact forall_told_methodFact source owner h.method member
      · exact fun _ hfact => absurd hfact List.not_mem_nil

end

/-- What a declaration tells: what it derives from, its members, and what it uses. -/
theorem forall_told_contentSteps (h : OfMembers owner holds)
    (hbase : ∀ name, holds (.inherits owner name))
    (hinterface : ∀ name, holds (.realizes owner name)) (node : Node)
    (huses : ∀ fact ∈ told ((typeNames node).flatMap fun reference =>
      steps ((simpleName source reference).map (useFact owner))), holds fact) :
    ∀ fact ∈ told (contentSteps source owner node), holds fact := by
  -- superclass, extended interfaces, interfaces, components, body, references
  simp only [contentSteps, told_append, List.forall_mem_append]
  refine ⟨⟨⟨⟨⟨?_, ?_⟩, ?_⟩, ?_⟩, ?_⟩, huses⟩
  · rw [told_flatMap]
    refine List.forall_mem_flatMap.mpr fun base _ => forall_told_map fun name => ?_
    rintro fact ⟨⟩
    exact hbase _
  · rw [told_flatMap]
    exact List.forall_mem_flatMap.mpr fun clause _ => forall_told_clauseSteps source hbase clause
  · rw [told_flatMap]
    exact List.forall_mem_flatMap.mpr fun clause _ =>
      forall_told_clauseSteps source hinterface clause
  · split
    · exact forall_told_componentSteps source owner h.field node
    · exact fun _ hfact => absurd hfact List.not_mem_nil
  · rw [told_flatMap]
    exact List.forall_mem_flatMap.mpr fun body _ =>
      forall_told_memberSteps source owner h body

end Told

/-- A reference that counts is a use by the owner. -/
theorem about_useFact (name : Text) : ∀ fact ∈ useFact owner name, fact.About owner := by
  unfold useFact
  dsimp only
  split
  · simp
  · rintro fact ⟨⟩
    exact rfl

/-- A declaration tells of itself alone, nested declarations are told on their own. -/
theorem allAbout_contentSteps (node : Node) :
    AllAbout owner (told (contentSteps source owner node)) := by
  refine forall_told_contentSteps source owner ⟨fun _ _ => rfl, fun _ _ => rfl, fun _ => rfl⟩
    (fun _ => rfl) (fun _ => rfl) node ?_
  rw [told_flatMap]
  exact List.forall_mem_flatMap.mpr fun reference _ => forall_told_map (about_useFact owner)

/-- What one declaration tells is scoped; without a name it tells nothing. -/
theorem scoped_declarationSteps (node : Node) :
    Scoped [] (told (declarationSteps source node)) := by
  unfold declarationSteps
  split
  · exact .nil
  · exact .nil
  · split
    · exact .nil
    · exact Scoped.block (allAbout_contentSteps source _ node)

/-- What is read of a tree is scoped, also where the reading breaks off. -/
theorem scoped_read (root : Node) :
    Scoped [] ((read source root).findings.map Finding.fact) := by
  unfold read
  split
  · exact .nil
  · refine Scoped.of_initial ?_ (facts_ofSteps_initial .java _)
    rw [told_flatMap]
    exact Scoped.flatMap fun node _ => scoped_declarationSteps source node

end Java

/-! ## Contributions -/

theorem Reading.map_fact_ofFacts (language : Language) (facts : List Fact) :
    (ofFacts language facts).findings.map Finding.fact = facts := by
  simp [ofFacts, Function.comp_def]

/-- What a contribution finds is scoped, unless it is in the one language where the kind of an
entity decides what a fact tells. -/
theorem Contribution.scoped_findings {contribution : Contribution}
    (h : contribution.language ≠ .python) :
    Scoped [] (contribution.findings.map Finding.fact) := by
  obtain ⟨language, source⟩ := contribution
  unfold findings
  cases language with
  | cSharp =>
      have hfacts := CSharp.scoped_facts source.text
      rwa [← Reading.map_fact_ofFacts .cSharp (CSharp.facts source.text)] at hfacts
  | python => exact absurd rfl h
  | typeScript =>
      have hfacts := TypeScript.scoped_facts source.text
      rwa [← Reading.map_fact_ofFacts .typeScript (TypeScript.facts source.text)] at hfacts
  | java =>
      -- without a syntax tree nothing is read
      unfold Source.read
      dsimp only
      split
      · exact Java.scoped_read _ _
      · exact .nil

end ClassDiagram
