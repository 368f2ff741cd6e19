import ClassDiagram.Proofs.Reading.Spaces
import ClassDiagram.Proofs.TypeExpr.Names

/-!
# Taking a name apart

Whatever text is taken apart, also where its brackets lead nowhere, what comes out are names without
dots. Taken apart again such a name gives itself, unless it is a word that the dialect drops: that can
come out behind a dot, but alone it is dropped.

* `Text.IsBaseName`: a name without dots.
* `Dialect.nameSet_identifier`: what a name gives.
* `Language.nameSet_baseName`: what every text gives, in all languages.
-/

namespace ClassDiagram

open Text

/-! ## Names without dots -/

/-- Whether a text is a letter of the alphabet, an underscore or a dollar sign, and behind it only word
characters and dollar signs. -/
def Text.IsBaseName (text : Text) : Prop :=
  ∃ first rest, text = first :: rest ∧ (first.isAlpha = true ∨ first = '_' ∨ first = '$') ∧
    ∀ c ∈ rest, isWordChar c = true ∨ c = '$'

namespace Identifier

theorem isBaseName (identifier : Identifier) : IsBaseName identifier.chars := by
  obtain ⟨first, rest, hchars⟩ := List.exists_cons_of_ne_nil identifier.ne_nil
  have hname := identifier.isName
  rw [hchars, isDollarName, Bool.and_eq_true, List.all_eq_true] at hname
  obtain ⟨hfirst, hrest⟩ := hname
  refine ⟨first, rest, hchars, ?_, fun c hc => ?_⟩
  · simpa [isDollarNameStart, isNameStart, or_assoc] using hfirst
  · simpa [isDollarNameChar] using hrest c hc

end Identifier

namespace Dialect

variable {dialect : Dialect}

/-- A name gives itself, unless it is dropped. -/
theorem nameSet_identifier (hregular : dialect.Regular) (identifier : Identifier) :
    dialect.nameSet identifier.chars =
      if identifier.name ∈ dialect.droppedWords then ∅ else .ofList [identifier.name] := by
  split
  · rename_i hdropped
    have hkept : ∀ c ∈ identifier.chars, isKept c = true := fun c hc =>
      TypeTree.isKept_of_nameChar (identifier.nameChar c hc)
    have hclean : dialect.clean identifier.chars = [] :=
      clean_of_dropped hkept identifier.tidy (identifier.not_mem (by decide)) hdropped
    rw [nameSet, names, dif_pos hclean]
    rfl
  · rename_i hkept
    let name : DottedName dialect := { first := identifier, kept := by simpa using hkept }
    have htext : (TypeTree.named name).text = identifier.chars := by
      show join ['.'] [identifier.chars] = identifier.chars
      rw [join, List.intercalate_singleton]
    rw [← htext, TypeTree.nameSet_text hregular]
    rfl

end Dialect

namespace Language

theorem regular_dialect (language : Language) : language.dialect.Regular := by
  cases language with
  | cSharp => exact Dialect.regular_cSharp
  | java => exact Dialect.regular_java
  | python => exact Dialect.regular_python
  | typeScript => exact Dialect.regular_typeScript

/-- Whatever a text is, the names that it gives in a language are names without dots. Each of them
gives itself and nothing else, unless it is a word that is dropped, which gives nothing. -/
theorem nameSet_baseName (language : Language) (expr : Text) (name : String)
    (h : name ∈ language.dialect.nameSet expr) :
    IsBaseName name.toList ∧ '.' ∉ name.toList ∧
      language.dialect.nameSet name.toList =
        if name ∈ language.dialect.droppedWords then ∅ else .ofList [name] := by
  obtain ⟨chars, hchars, rfl⟩ := List.mem_map.mp (NameSet.mem_ofList.mp h)
  let identifier : Identifier := ⟨chars, Dialect.isDollarName_of_mem_names expr chars hchars⟩
  rw [String.toList_ofList]
  exact ⟨identifier.isBaseName, identifier.not_mem (by decide),
    Dialect.nameSet_identifier language.regular_dialect identifier⟩

/-- A text whose brackets do not match, with a dropped word behind a dot. -/
def crateText : Text := "wood.Crate$<readonly Lid[], depot.unique | [Nail?".toList

theorem nameSet_baseName_crate :
    typeScript.dialect.nameSet crateText = .ofList ["Crate$", "Lid", "unique"] ∧
      IsBaseName "Crate$".toList ∧
      typeScript.dialect.nameSet "Crate$".toList = .ofList ["Crate$"] ∧
      typeScript.dialect.nameSet "unique".toList = ∅ := by
  have hset : typeScript.dialect.nameSet crateText = .ofList ["Crate$", "Lid", "unique"] := by
    decide +kernel
  have hcrate := nameSet_baseName .typeScript crateText "Crate$" (by rw [hset]; decide)
  have hunique := nameSet_baseName .typeScript crateText "unique" (by rw [hset]; decide)
  exact ⟨hset, hcrate.1, hcrate.2.2, hunique.2.2⟩

end Language

end ClassDiagram
