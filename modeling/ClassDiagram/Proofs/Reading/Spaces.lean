import ClassDiagram.Proofs.Model.Strings
import ClassDiagram.Proofs.Scan.Plain
import ClassDiagram.Proofs.Text.Spaces
import ClassDiagram.Reader.Header

/-!
# Blanks in facts

A fact has no blanks but spaces if its names and types have none. This is what readers of all
languages have in common: names in use are names, and a header is announced by one.

* `Fact.Spaced`: the property.
* `Dialect.isDollarName_of_mem_names`: a name in use is a name.
* `HeaderRule.title_of_next?`: what holds of the keywords and names that a rule reads holds of all
  headers.
-/

namespace ClassDiagram

open Text

/-- Whether the strings of a fact have no blanks but spaces. -/
def Fact.Spaced (fact : Fact) : Prop := ∀ string ∈ fact.strings, SpacesOnly string.toList

/-! ## Names in use -/

namespace Text

/-- The simple name of a dotted name is a name. -/
theorem isDollarName_simpleName {text : Text} (h : isDottedName text = true) :
    isDollarName (simpleName text) = true := by
  have hdots : ∀ item ∈ text.cut (· == '.'), '.' ∉ item := by
    intro item hitem hdot
    exact absurd (not_of_mem_cut hitem hdot) (by decide)
  have hlast := simpleName_join hdots (cut_ne_nil _ _)
  rw [join_cut] at hlast
  rw [hlast]
  exact List.all_eq_true.mp h _ (List.getLast_mem _)

end Text

namespace Dialect

variable {dialect : Dialect} {name : Text}

/-- The head of a generic type is named by a name. -/
theorem isDollarName_of_mem_headName {head : Text} (h : name ∈ dialect.headName head) :
    name.isDollarName = true := by
  unfold headName at h
  split at h
  · rename_i hhead
    rw [List.mem_singleton.mp h]
    exact isDollarName_simpleName (Bool.and_eq_true_iff.mp hhead).1
  · cases h

/-- What a step reads is a name. -/
theorem isDollarName_of_mem_step {expr : Text} (h : name ∈ (dialect.step expr).1) :
    name.isDollarName = true := by
  simp only [step] at h
  split at h
  · cases h
  split at h
  · cases h
  split at h
  · cases h
  split at h
  · split at h
    · cases h
    · exact isDollarName_of_mem_headName h
  · split at h
    · rename_i hdotted
      rw [List.mem_singleton.mp h]
      exact isDollarName_simpleName hdotted
    · cases h

/-- Whatever an expression is, the names that are found in it are names. -/
theorem isDollarName_of_mem_names (expr : Text) :
    ∀ name ∈ dialect.names expr, name.isDollarName = true := by
  fun_induction names dialect expr with
  | case1 => exact List.forall_mem_nil _
  | case2 expr cleaned hne ih =>
      intro name h
      -- the name at the head, or a name in one of the parts
      rcases List.mem_append.mp h with h | h
      · exact isDollarName_of_mem_step h
      · obtain ⟨part, -, hname⟩ := List.mem_flatMap.mp h
        exact ih part.1 part.2 name hname

end Dialect

/-- The names that a type uses hold no blank. -/
theorem spaced_usesOf (language : Language) (owner : String) (expr : Text) :
    ∀ fact ∈ Fact.usesOf language owner expr, fact.Spaced := by
  refine List.forall_mem_map.mpr fun used hused string hstring => ?_
  rw [show (Fact.uses owner used).strings = [used] from rfl, List.mem_singleton] at hstring
  subst hstring
  have hset := NameSet.mem_ofList.mp (NameSet.mem_def.mpr (List.mem_filter.mp hused).1)
  obtain ⟨name, hname, rfl⟩ := List.mem_map.mp hset
  rw [String.toList_ofList]
  exact spacesOnly_of_filled
    (not_blank_of_isDollarName (Dialect.isDollarName_of_mem_names expr name hname))

/-! ## Headers -/

namespace HeaderRule

variable {rule : HeaderRule} {holds : String → Text → Prop} {text : Text}
  (hread : ∀ text keyword name rest, rule.read? text = some (keyword, name, rest) →
    holds keyword name)

include hread

/-- What a rule reads holds of the header that it finds. -/
theorem title_of_nextFrom? {afterWordChar : Bool} {offset : Nat} {header : Header}
    (h : rule.nextFrom? afterWordChar offset text = some header) :
    holds header.keyword header.name := by
  fun_induction nextFrom? rule afterWordChar offset text with
  | case1 => cases h
  | case2 _ _ _ _ _ _ _ _ _ ih => exact ih h
  | case3 afterWordChar offset c tail keyword name rest hat _ =>
      cases h
      unfold at? at hat
      split at hat
      · cases hat
      · exact hread _ _ _ _ hat
  | case4 _ _ _ _ _ ih => exact ih h

/-- What holds of every keyword and name that is read at the front of a text holds of the next
header. -/
theorem title_of_next? {header : Header} (h : rule.next? text = some header) :
    holds header.keyword header.name :=
  title_of_nextFrom? hread h

/-- It holds of all headers, because each of them is the next one somewhere. -/
theorem title_of_mem_all : ∀ header ∈ rule.all text, holds header.keyword header.name := by
  fun_induction all rule text with
  | case1 text header hnext ih =>
      exact List.forall_mem_cons.mpr ⟨title_of_next? hread hnext, ih⟩
  | case2 => exact List.forall_mem_nil _

end HeaderRule

/-! ## Members -/

section Members

variable {owner : String} {name type result : Text} {params : List Text}

/-- A fact with one text holds no blank but spaces if the text does. -/
theorem spaced_of_name {fact : Fact} (hname : SpacesOnly name)
    (h : fact.strings = [String.ofList name]) : fact.Spaced := by
  intro string hstring
  rw [h, List.mem_singleton] at hstring
  rwa [hstring, String.toList_ofList]

/-- A field's fact holds no blank but spaces if its name and its type do. -/
theorem spaced_field (hname : SpacesOnly name) (htype : SpacesOnly type) :
    (Fact.field owner (String.ofList name) (String.ofList type)).Spaced := by
  intro string hstring
  rcases List.mem_pair.mp hstring with rfl | rfl
  · rwa [String.toList_ofList]
  · rwa [String.toList_ofList]

/-- A field and the names that its type uses. -/
theorem spaced_ofField (language : Language) (hname : SpacesOnly name) (htype : SpacesOnly type) :
    ∀ fact ∈ Fact.ofField language owner name type, fact.Spaced :=
  List.forall_mem_cons.mpr ⟨spaced_field hname htype, spaced_usesOf _ _ _⟩

/-- An enum member's fact holds no blank but spaces if its name does. -/
theorem spaced_enumMember {label : String} (hname : SpacesOnly name) :
    (Fact.enumMember owner (String.ofList name) label).Spaced := by
  have hempty : SpacesOnly "".toList := by decide
  intro string hstring
  rcases List.mem_pair.mp hstring with rfl | rfl
  · rwa [String.toList_ofList]
  · exact hempty

/-- A method's fact holds no blank but spaces if its parts do. -/
theorem spaced_method (hname : SpacesOnly name) (hresult : SpacesOnly result)
    (hparams : ∀ param ∈ params, SpacesOnly param) :
    (Fact.method owner
      ⟨String.ofList name, String.ofList result, params.map String.ofList⟩).Spaced := by
  intro string hstring
  simp only [Fact.strings, Fact.feature?, Option.toList_some, List.flatMap_singleton,
    Feature.strings, Method.strings, List.mem_cons, List.mem_map] at hstring
  rcases hstring with rfl | rfl | ⟨param, hparam, rfl⟩
  · rwa [String.toList_ofList]
  · rwa [String.toList_ofList]
  · rw [String.toList_ofList]
    exact hparams param hparam

/-- A method and the names that its parameters and its result use. -/
theorem spaced_ofMethod (language : Language) (hname : SpacesOnly name)
    (hresult : SpacesOnly result) (hparams : ∀ param ∈ params, SpacesOnly param) :
    ∀ fact ∈ Fact.ofMethod language owner name result params, fact.Spaced :=
  List.forall_mem_append.mpr ⟨List.forall_mem_cons.mpr ⟨spaced_method hname hresult hparams,
    List.forall_mem_flatMap.mpr fun _ _ => spaced_usesOf _ _ _⟩, spaced_usesOf _ _ _⟩

end Members

end ClassDiagram
