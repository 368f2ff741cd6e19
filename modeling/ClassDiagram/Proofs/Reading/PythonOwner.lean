import ClassDiagram.Proofs.Reading.Owner

/-!
# Owners of facts in Python

What is read of a line of Python is about the class that is open, which was declared by a line before
it. So the facts of a source are owned: the invariant of the reading is that the owners of all open
scopes are declared.

* `OwnersIn`: the owners of some scopes are declared.
* `Kept`: what a reading has told is owned, and the scopes open behind it keep the invariant.
* `readLine_induct`: what holds of headers and statements holds of a line.
* `kept_readLine`, `owned_factsFrom`: one line, with the statements behind its header, and all lines.
* `Contribution.owned_findings`: contributions in every language tell owned facts.
-/

namespace ClassDiagram

namespace Python

section About

variable (owner : String)

@[simp] theorem allAbout_usesOf (expr : Text) : AllAbout owner (usesOf owner expr) :=
  ClassDiagram.allAbout_usesOf _ _

@[simp] theorem allAbout_fieldFacts (name type : Text) :
    AllAbout owner (fieldFacts owner name type) :=
  allAbout_ofField _ _ _

/-- A statement of a constructor tells of its class. -/
theorem allAbout_constructorStatementFacts (params : List (Text × Text)) (line : Text) :
    AllAbout owner (constructorStatementFacts owner params line) := by
  unfold constructorStatementFacts
  split <;> simp

/-- A method tells of its class. -/
theorem allAbout_methodFacts (name : Text) (params : List (Text × Text)) (result : Text) :
    AllAbout owner (methodFacts owner name params result) := by
  unfold methodFacts
  dsimp only
  split <;> simp [Fact.About]

end About

/-- The class that a scope belongs to. -/
def Scope.owner? : Scope → Option String
  | body owner => some owner
  | method owner _ _ => some owner
  | function => none

/-- Whether the classes that some scopes belong to are declared. -/
def OwnersIn (declared : List String) (scopes : List OpenScope) : Prop :=
  ∀ scope ∈ scopes, ∀ owner ∈ scope.scope.owner?, owner ∈ declared

section Owners

variable {declared : List String} {scopes : List OpenScope}

/-- Owners among some names are among more. -/
theorem OwnersIn.mono (h : OwnersIn declared scopes) {more : List String}
    (hsub : declared ⊆ more) : OwnersIn more scopes :=
  fun scope hscope owner howner => hsub (h scope hscope owner howner)

/-- Closing scopes adds no owner. -/
theorem OwnersIn.closeScopes (h : OwnersIn declared scopes) (indent : Nat) :
    OwnersIn declared (closeScopes indent scopes) :=
  fun scope hscope => h scope ((List.dropWhile_suffix _).subset hscope)

/-- Opening a scope of a declared owner adds no other. -/
theorem OwnersIn.cons (h : OwnersIn declared scopes) {indent : Nat} {scope : Scope}
    (hscope : ∀ owner ∈ scope.owner?, owner ∈ declared) :
    OwnersIn declared (⟨indent, scope⟩ :: scopes) :=
  List.forall_mem_cons.mpr ⟨hscope, h⟩

/-- The innermost scope belongs to a declared class. -/
theorem OwnersIn.head (h : OwnersIn declared scopes) {scope : Scope} {owner : String}
    (hscope : scopes.head?.map OpenScope.scope = some scope) (howner : scope.owner? = some owner) :
    owner ∈ declared := by
  obtain ⟨outer, houter, rfl⟩ := Option.map_eq_some_iff.mp hscope
  exact h outer (List.mem_of_head? houter) owner howner

/-- A statement tells of the owner of its scope, if it has one. -/
theorem owned_statementFacts (h : OwnersIn declared scopes) (line : Text) :
    Owned declared (statementFacts scopes line) := by
  unfold statementFacts
  split
  · rename_i owner hscope
    have howner : owner ∈ declared := h.head hscope rfl
    unfold bodyStatementFacts
    dsimp only
    split
    · exact Owned.of_allAbout howner (allAbout_fieldFacts owner _ _)
    · split
      -- a value is told of the class whatever its kind
      · exact ⟨fun _ hother => Option.some.inj hother ▸ howner, trivial⟩
      · trivial
  · rename_i owner name params hscope
    split
    · exact Owned.of_allAbout (h.head hscope rfl)
        (allAbout_constructorStatementFacts owner params line)
    · trivial
  · trivial

/-- The head of a function tells of the owner of its scope, if it has one. -/
theorem owned_openFunction (h : OwnersIn declared scopes) (name : Text) (parts : HeaderParts) :
    Owned declared (openFunction scopes name parts).2 ∧
      ∀ owner ∈ (openFunction scopes name parts).1.owner?, owner ∈ declared := by
  unfold openFunction
  split
  · rename_i owner hscope
    have howner : owner ∈ declared := h.head hscope rfl
    exact ⟨Owned.of_allAbout howner (allAbout_methodFacts owner name _ _),
      fun _ hother => Option.some.inj hother ▸ howner⟩
  · exact ⟨trivial, fun _ hother => absurd hother (by simp [Scope.owner?])⟩

/-- The head of a class declares it and tells of it. -/
theorem owned_classFacts (declared : List String) (owner : String) (arguments : Text) :
    Owned declared (classFacts owner arguments) := by
  refine (Scoped.block (allAbout_flatMap.mpr fun base _ => ?_)).owned
  exact allAbout_cons.mpr ⟨rfl, allAbout_usesOf owner _⟩

end Owners

/-- Whether a reading has told owned facts, and left scopes open whose owners are declared. -/
def Kept (declared : List String) (read : List OpenScope × List Fact) : Prop :=
  Owned declared read.2 ∧ OwnersIn (declaredAfter declared read.2) read.1

/-- What one line keeps, and then the next, both keep. -/
theorem Kept.append {declared : List String} {scopes next : List OpenScope}
    {facts more : List Fact} (h : Kept declared (scopes, facts))
    (hnext : Kept (declaredAfter declared facts) (next, more)) :
    Kept declared (next, facts ++ more) := by
  refine ⟨h.1.append hnext.1, ?_⟩
  rw [declaredAfter_append]
  exact hnext.2

/-- What holds of every header and of every statement, and of two readings in a row if it holds of
each, holds of a line with all that stands behind its header. -/
theorem readLine_induct {indent : Nat}
    {motive : List OpenScope → List OpenScope × List Fact → Prop}
    (header : ∀ scopes line name rest arguments, classHeader? line = some (name, rest) →
      motive scopes (⟨indent, .body (String.ofList name)⟩ :: scopes,
        classFacts (String.ofList name) arguments))
    (function : ∀ scopes name parts, motive scopes
      (⟨indent, (openFunction scopes name parts).1⟩ :: scopes, (openFunction scopes name parts).2))
    (statement : ∀ scopes line, motive scopes (scopes, statementFacts scopes line))
    (append : ∀ scopes next last told more, motive scopes (next, told) → motive next (last, more) →
      motive scopes (last, told ++ more))
    (scopes : List OpenScope) (line : Text) : motive scopes (readLine indent scopes line) := by
  rw [readLine]
  split
  · rename_i name rest hheader
    refine List.foldlRecOn (motive := motive scopes) _ _
      (header scopes line name rest _ hheader) ?_
    rintro ⟨next, told⟩ hread ⟨inner, hinner⟩ _
    have hshorter : inner.length < line.length :=
      Nat.lt_of_le_of_lt (Nat.le_trans (Text.length_le_of_mem_splitTop hinner)
        (length_inline_le rest)) (length_lt_of_classHeader? hheader)
    exact append _ _ _ _ _ hread (readLine_induct header function statement append next inner)
  · split
    · rename_i name rest hheader
      refine List.foldlRecOn (motive := motive scopes) _ _ (function scopes _ _) ?_
      rintro ⟨next, told⟩ hread ⟨inner, hinner⟩ _
      -- what stands on the line of a function that is no method is not read
      have hinline : ∀ scope : Scope,
          (if scope = .function then [] else (headerParts rest).inline).length ≤ rest.length := by
        intro scope
        split
        · exact Nat.zero_le _
        · exact length_inline_le rest
      have hshorter : inner.length < line.length :=
        Nat.lt_of_le_of_lt (Nat.le_trans (Text.length_le_of_mem_splitTop hinner)
          (hinline _)) (length_lt_of_functionHeader? hheader)
      exact append _ _ _ _ _ hread (readLine_induct header function statement append next inner)
    · exact statement scopes line
termination_by line.length

/-- Reading a line keeps the invariant. -/
theorem kept_readLine (declared : List String) (indent : Nat) (scopes : List OpenScope)
    (line : Text) (h : OwnersIn declared scopes) :
    Kept declared (readLine indent scopes line) := by
  refine readLine_induct (motive := fun scopes read => ∀ declared, OwnersIn declared scopes →
    Kept declared read) ?header ?function ?statement ?append scopes line declared h
  case header =>
    intro scopes _ name _ arguments _ declared h
    refine ⟨owned_classFacts declared _ _, OwnersIn.cons (h.mono (subset_declaredAfter _ _)) ?_⟩
    rintro owner ⟨⟩
    exact subset_declaredAfter (String.ofList name :: declared) _ List.mem_cons_self
  case function =>
    intro scopes name parts declared h
    have hopen := owned_openFunction h name parts
    refine ⟨hopen.1, OwnersIn.cons (h.mono (subset_declaredAfter _ _)) ?_⟩
    exact fun owner howner => subset_declaredAfter _ _ (hopen.2 owner howner)
  case statement =>
    exact fun scopes line declared h =>
      ⟨owned_statementFacts h line, h.mono (subset_declaredAfter _ _)⟩
  case append =>
    intro scopes next last told more hread hnext declared h
    have hkept := hread declared h
    exact hkept.append (hnext _ hkept.2)

/-- The facts of logical lines are owned. -/
theorem owned_factsFrom (declared : List String) (scopes : List OpenScope)
    (lines : List LogicalLine) (h : OwnersIn declared scopes) :
    Owned declared (factsFrom scopes lines) := by
  induction lines generalizing declared scopes with
  | nil => trivial
  | cons line rest ih =>
      rw [factsFrom]
      split
      · exact ih declared scopes h
      · have hkept := kept_readLine declared line.indent _ line.text (h.closeScopes line.indent)
        exact hkept.1.append (ih _ _ hkept.2)

/-- Each fact of a source is about a type that was declared before it. -/
theorem owned_facts (source : Text) : Owned [] (facts source) :=
  owned_factsFrom [] [] _ fun _ hscope => absurd hscope List.not_mem_nil

end Python

/-- What a contribution finds is owned, in every language and also where it breaks off. -/
theorem Contribution.owned_findings (contribution : Contribution) :
    Owned [] (contribution.findings.map Finding.fact) := by
  by_cases hlanguage : contribution.language = .python
  · obtain ⟨language, source⟩ := contribution
    cases hlanguage
    have hfacts := Python.owned_facts source.text
    rwa [← Reading.map_fact_ofFacts .python (Python.facts source.text)] at hfacts
  · exact (Contribution.scoped_findings hlanguage).owned

end ClassDiagram
