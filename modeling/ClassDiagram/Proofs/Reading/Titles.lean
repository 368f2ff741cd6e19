import ClassDiagram.Proofs.Model.Edges
import ClassDiagram.Proofs.Reading.CSharpSpaces
import ClassDiagram.Proofs.Reading.JavaUses
import ClassDiagram.Proofs.Reading.PythonOwner
import ClassDiagram.Proofs.Reading.TypeScriptSpaces

/-!
# How declarations are announced

A declaration is told by a word for what is declared and by the declared name. The words are few, in
every language. A name is cut from the text by its letters in C#, TypeScript and Python, so that it
holds no space there; in Java it is the text of a node, whatever that may be.

* `Fact.Worded`, `Fact.Titled`: a declaration with one of the words, and with a name without spaces.
* `CSharp.titled_facts`, `TypeScript.titled_facts`, `Python.titled_facts`, `Java.worded_read`: what
  each of the readers tells.
* `Contribution.titled_findings`: what every contribution tells, given the names of those in Java.
-/

namespace ClassDiagram

namespace Fact

/-- The words by which declarations are announced. -/
def titleWords : List String := ["class", "interface", "struct", "record", "enum", "type alias"]

/-- Whether a fact, if it is a declaration, is announced by one of the words. -/
def Worded : Fact → Prop
  | declares _ _ word _ => word ∈ titleWords
  | _ => True

/-- Whether a fact, if it is a declaration, is announced by one of the words and declares a name
without spaces. -/
def Titled (fact : Fact) : Prop := fact.Worded ∧ ∀ name ∈ fact.declared?, ' ' ∉ name.toList

/-- A declaration is titled by a word and a name that has no blanks at all. -/
theorem titled_declares {name : Text} {kind : Kind} {word : String} {offset : Option Nat}
    (hword : word ∈ titleWords) (hname : ∀ c ∈ name, Text.isBlank c = false) :
    (declares (String.ofList name) kind word offset).Titled := by
  refine ⟨hword, ?_⟩
  rintro _ ⟨⟩ hspace
  rw [String.toList_ofList] at hspace
  exact absurd (hname ' ' hspace) (by decide)

/-- What is told of an owner is no declaration. -/
theorem About.titled {owner : String} {fact : Fact} (h : fact.About owner) : fact.Titled := by
  cases fact with
  | declares => exact h.elim
  | _ => exact ⟨trivial, fun _ hname => absurd hname (by simp [declared?])⟩

theorem titled_enumValue (owner name : String) : (enumValue owner name).Titled :=
  ⟨trivial, fun _ hname => absurd hname (by simp [declared?])⟩

end Fact

/-- Facts about an owner declare nothing, so that no title is at fault. -/
theorem AllAbout.titled {owner : String} {facts : List Fact} (h : AllAbout owner facts) :
    ∀ fact ∈ facts, fact.Titled :=
  fun fact hfact => (h fact hfact).titled

/-! ## C# -/

namespace CSharp

open Text

/-- The keyword in a header is one of the words. -/
theorem titleWord_of_header? (text : Text) (keyword : String) (name rest : Text)
    (h : header? text = some (keyword, name, rest)) : keyword ∈ Fact.titleWords := by
  unfold header? at h
  dsimp only at h
  split at h
  · rename_i hkeyword
    obtain ⟨found, _, heq⟩ := Option.map_eq_some_iff.mp h
    cases heq
    have hwords : ∀ word ∈ typeKeywords, word ∈ Fact.titleWords := by decide
    exact hwords _ (by simpa using hkeyword)
  · cases h

/-- What a header declares is titled. -/
theorem titled_of_next? {text : Text} {header : Header} (h : headerRule.next? text = some header)
    (kind : Kind) (offset : Option Nat) :
    (Fact.declares (String.ofList (unmark header.name)) kind header.keyword offset).Titled :=
  Fact.titled_declares (HeaderRule.title_of_next? titleWord_of_header? h) fun c hc =>
    HeaderRule.title_of_next? not_blank_of_header? h c (unmark_subset _ hc)

/-- Each declaration is titled by its keyword and a name without blanks. -/
theorem titled_factsFrom (offset : Nat) (text : Text) :
    ∀ fact ∈ factsFrom offset text, fact.Titled := by
  -- from header to header: between two of them everything is about what the first one declares
  fun_induction factsFrom offset text with
  | case1 => exact List.forall_mem_nil _
  | case2 offset text header hnext owner place behind stop declaration members hmembers _ ih =>
      refine List.forall_mem_append.mpr ⟨List.forall_mem_append.mpr ⟨List.forall_mem_cons.mpr
        ⟨titled_of_next? hnext _ _, (allAbout_headerFacts owner _ _).titled⟩,
        (allAbout_bodyFacts? owner hmembers).titled⟩, ih⟩
  | case3 offset text header hnext owner place behind stop declaration _ _ ih =>
      have hopen : (Fact.openBody owner).About owner := trivial
      exact List.forall_mem_append.mpr ⟨List.forall_mem_cons.mpr
        ⟨titled_of_next? hnext _ _, (allAbout_headerFacts owner _ _).titled⟩,
        List.forall_mem_cons.mpr ⟨hopen.titled, ih⟩⟩
  | case4 offset text header hnext owner place behind stop hasBody _ declaration _ ih =>
      exact List.forall_mem_append.mpr ⟨List.forall_mem_cons.mpr
        ⟨titled_of_next? hnext _ _, (allAbout_headerFacts owner _ _).titled⟩, ih⟩

theorem titled_facts (source : Text) : ∀ fact ∈ facts source, fact.Titled :=
  titled_factsFrom 0 _

end CSharp

/-! ## TypeScript -/

namespace TypeScript

open Text

/-- The keyword that is read is one of those that were looked for. -/
theorem keyword_of_keywordAndName? {keywords : List String} (text : Text) (keyword : String)
    (name rest : Text) (h : keywordAndName? keywords text = some (keyword, name, rest)) :
    keyword ∈ keywords := by
  unfold keywordAndName? at h
  dsimp only at h
  split at h
  · rename_i hkeyword
    obtain ⟨found, _, heq⟩ := Option.map_eq_some_iff.mp h
    cases heq
    simpa using hkeyword
  · cases h

/-- What an alias declares is titled, by two words. -/
theorem titled_aliasFacts {header : Header} (h : ∀ c ∈ header.name, isBlank c = false) :
    ∀ fact ∈ aliasFacts header, fact.Titled := by
  unfold aliasFacts
  split
  · split
    · exact List.forall_mem_append.mpr ⟨List.forall_mem_cons.mpr
        ⟨Fact.titled_declares (by decide) h, (allAbout_shapes _ _).titled⟩,
        List.forall_mem_flatMap.mpr fun _ _ => (allAbout_usesOf _ _).titled⟩
    · exact List.forall_mem_nil _
  · exact List.forall_mem_nil _

/-- Each declaration is titled by its keyword and a name without blanks. -/
theorem titled_declarationFacts (text : Text) : ∀ fact ∈ declarationFacts text, fact.Titled := by
  have htitle : ∀ {text : Text} {header : Header} {kind : Kind},
      headerRule.next? text = some header →
      (Fact.declares (String.ofList header.name) kind header.keyword none).Titled := by
    intro text header kind hnext
    have hwords : ∀ word ∈ ["class", "interface", "enum"], word ∈ Fact.titleWords := by decide
    exact Fact.titled_declares
      (hwords _ (HeaderRule.title_of_next? keyword_of_keywordAndName? hnext))
      (HeaderRule.title_of_next? not_blank_of_keywordAndName? hnext)
  have hlead : ∀ (owner : String) (params bases : Text),
      ∀ fact ∈ typeParameterFacts owner params ++ headerFacts owner bases, fact.Titled :=
    fun owner params bases => List.forall_mem_append.mpr
      ⟨(allAbout_typeParameterFacts owner params).titled, (allAbout_headerFacts owner bases).titled⟩
  fun_induction declarationFacts text with
  | case1 => exact List.forall_mem_nil _
  | case2 _ header hnext owner params behind start bases declaration _ ih =>
      exact List.forall_mem_append.mpr
        ⟨List.forall_mem_cons.mpr ⟨htitle hnext, hlead owner _ _⟩, ih⟩
  | case3 _ header hnext owner params behind start bases declaration place _ _ ih =>
      have hopen : (Fact.openBody owner).About owner := trivial
      exact List.forall_mem_append.mpr
        ⟨List.forall_mem_cons.mpr ⟨htitle hnext, hlead owner _ _⟩,
          List.forall_mem_cons.mpr ⟨hopen.titled, ih⟩⟩
  | case4 _ header hnext owner params behind start bases declaration place _ close _ ih =>
      exact List.forall_mem_append.mpr ⟨List.forall_mem_append.mpr
        ⟨List.forall_mem_cons.mpr ⟨htitle hnext, hlead owner _ _⟩,
          (allAbout_bodyFacts owner _ _).titled⟩, ih⟩

theorem titled_facts (source : Text) : ∀ fact ∈ facts source, fact.Titled :=
  List.forall_mem_append.mpr ⟨List.forall_mem_flatMap.mpr fun header hheader =>
    titled_aliasFacts (HeaderRule.title_of_mem_all not_blank_of_alias? header hheader),
    titled_declarationFacts _⟩

end TypeScript

/-! ## Python -/

namespace Python

/-- A class header declares the name that is cut from it, by the word for its kind. -/
theorem titled_classFacts {line name rest : Text} (h : classHeader? line = some (name, rest))
    (arguments : Text) : ∀ fact ∈ classFacts (String.ofList name) arguments, fact.Titled := by
  obtain ⟨behind, -, hname⟩ := Option.bind_eq_some_iff.mp h
  have hwords : ∀ kind : Kind, kind.word ∈ Fact.titleWords := by
    intro kind
    cases kind <;> decide
  refine List.forall_mem_cons.mpr
    ⟨Fact.titled_declares (hwords _) (Text.not_blank_of_name? hname), ?_⟩
  refine List.forall_mem_flatMap.mpr fun base _ => ?_
  have habout : AllAbout (String.ofList name)
      (.inherits (String.ofList name) (String.ofList base.1) ::
        usesOf (String.ofList name) base.2) :=
    allAbout_cons.mpr ⟨rfl, allAbout_usesOf _ _⟩
  exact habout.titled

/-- A statement declares nothing. -/
theorem titled_statementFacts (scopes : List OpenScope) (line : Text) :
    ∀ fact ∈ statementFacts scopes line, fact.Titled := by
  unfold statementFacts
  split
  · unfold bodyStatementFacts
    dsimp only
    split
    · exact (allAbout_fieldFacts _ _ _).titled
    · split
      · exact List.forall_mem_singleton.mpr (Fact.titled_enumValue _ _)
      · exact List.forall_mem_nil _
  · split
    · exact (allAbout_constructorStatementFacts _ _ _).titled
    · exact List.forall_mem_nil _
  · exact List.forall_mem_nil _

/-- The head of a class is titled by its keyword and a name. -/
theorem titled_readLine (indent : Nat) (scopes : List OpenScope) (line : Text) :
    ∀ fact ∈ (readLine indent scopes line).2, fact.Titled := by
  refine readLine_induct (motive := fun _ read => ∀ fact ∈ read.2, fact.Titled)
    ?header ?function ?statement ?append scopes line
  case header => exact fun _ _ _ _ arguments hheader => titled_classFacts hheader arguments
  case function =>
    intro scopes name parts
    show ∀ fact ∈ (openFunction scopes name parts).2, fact.Titled
    unfold openFunction
    split
    · exact (allAbout_methodFacts _ _ _ _).titled
    · exact List.forall_mem_nil _
  case statement => exact titled_statementFacts
  case append => exact fun _ _ _ _ _ htold hmore => List.forall_mem_append.mpr ⟨htold, hmore⟩

theorem titled_facts (source : Text) : ∀ fact ∈ facts source, fact.Titled := by
  have hlines : ∀ (lines : List LogicalLine) (scopes : List OpenScope),
      ∀ fact ∈ factsFrom scopes lines, fact.Titled := by
    intro lines
    induction lines with
    | nil => exact fun _ => List.forall_mem_nil _
    | cons line rest ih =>
        intro scopes
        rw [factsFrom]
        split
        · exact ih scopes
        · exact List.forall_mem_append.mpr ⟨titled_readLine _ _ _, ih _⟩
  exact hlines _ _

end Python

/-! ## Java -/

namespace Java

/-- A declaration of Java is announced by the first word of the type of its node. -/
theorem worded_declarationSteps (source : List UInt8) (node : Node) :
    ∀ fact ∈ told (declarationSteps source node), fact.Worded := by
  intro fact hfact
  obtain ⟨kind, name, hkind, -, -, hmem⟩ := mem_declarationSteps.mp hfact
  rcases List.mem_cons.mp hmem with rfl | hcontent
  · show String.ofList (Text.upTo '_' node.type.toList) ∈ Fact.titleWords
    unfold kindOf? at hkind
    split at hkind
    all_goals
      first
        | (rename_i htype; rw [htype]; decide)
        | cases hkind
  · exact (allAbout_contentSteps source name node fact hcontent).titled.1

/-- Each declaration of a syntax tree is titled by one of the words for types. -/
theorem worded_read (source : List UInt8) (root : Node) :
    ∀ fact ∈ (read source root).findings.map Finding.fact, fact.Worded := by
  unfold read
  split
  · exact List.forall_mem_nil _
  -- where the reading breaks off, less is told
  · intro fact hfact
    have hmem := (facts_ofSteps_initial .java _).subset hfact
    rw [told_flatMap] at hmem
    obtain ⟨node, -, htold⟩ := List.mem_flatMap.mp hmem
    exact worded_declarationSteps source node fact htold

end Java

/-! ## Contributions -/

/-- Contributions tell titled facts, provided that those in Java declare names without spaces. -/
theorem Contribution.titled_findings {contribution : Contribution}
    (h : contribution.language = .java →
      ∀ name ∈ declaredNames contribution.findings, ' ' ∉ name.toList) :
    ∀ finding ∈ contribution.findings, finding.fact.Titled := by
  obtain ⟨language, source⟩ := contribution
  intro finding hfinding
  cases language with
  | cSharp =>
      obtain ⟨fact, hfact, rfl⟩ := List.mem_map.mp hfinding
      exact CSharp.titled_facts source.text fact hfact
  | typeScript =>
      obtain ⟨fact, hfact, rfl⟩ := List.mem_map.mp hfinding
      exact TypeScript.titled_facts source.text fact hfact
  | python =>
      obtain ⟨fact, hfact, rfl⟩ := List.mem_map.mp hfinding
      exact Python.titled_facts source.text fact hfact
  -- a syntax tree gives any name, so that the names have to be asked for
  | java =>
      refine ⟨?_, fun name hname => h rfl name (List.mem_filterMap.mpr ⟨finding, hfinding, hname⟩)⟩
      unfold findings Source.read at hfinding
      dsimp only at hfinding
      split at hfinding
      · exact Java.worded_read _ _ _ (List.mem_map_of_mem hfinding)
      · cases hfinding

end ClassDiagram
