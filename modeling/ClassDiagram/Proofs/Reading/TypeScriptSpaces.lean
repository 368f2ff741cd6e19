import ClassDiagram.Proofs.Reading.Spaces
import ClassDiagram.Reader.TypeScript

/-!
# Blanks in what is read of TypeScript

What is read of a TypeScript source has no blanks but spaces. A unit of a body is collapsed as a
whole, so that the names of parameters and the shape that a method returns are safe where they are
cut from it; most other types are collapsed once more.

* `dropDecorators_subset`, `memberName?_spec` and others: what is cut from a unit.
* `spaced_unitFacts`, `spaced_headerFacts`: one unit, one header.
* `spaced_facts`: all facts of a source.
-/

namespace ClassDiagram

open Text

namespace TypeScript

variable {owner : String} {text : Text}

/-! ## Cuts -/

theorem spanWord_subset (text : Text) : (spanWord text).2 ⊆ text :=
  (List.dropWhile_sublist _).subset

/-- Dropping leading words adds no character. -/
theorem dropLeading_subset (words : List String) (text : Text) : dropLeading words text ⊆ text := by
  fun_induction dropLeading words text with
  | case1 text _ rest hrest ih =>
      exact List.Subset.trans ih
        (List.Subset.trans (afterBlanks?_subset hrest) (spanWord_subset text))
  | case2 => exact List.Subset.refl _
  | case3 => exact List.Subset.refl _

/-- What is left behind a decorator's name is part of the text. -/
theorem afterSegments_subset (text : Text) : afterSegments text ⊆ text := by
  fun_induction afterSegments text with
  | case1 rest name behind hname ih =>
      exact List.subset_cons_of_subset _
        (List.Subset.trans ih (isDollarName_of_dollarName? hname).2)
  | case2 => exact List.Subset.refl _
  | case3 => exact List.Subset.refl _

/-- What is left behind a decorator's arguments is part of the text. -/
theorem afterArguments_subset (text : Text) : afterArguments text ⊆ text := by
  unfold afterArguments
  split
  · split
    · exact List.drop_subset _ _
    · exact List.nil_subset _
  · exact List.Subset.refl _

/-- Dropping decorators adds no character. -/
theorem dropDecorators_subset (text : Text) : dropDecorators text ⊆ text := by
  fun_induction dropDecorators text with
  | case1 text rest hstrip name behind hname ih =>
      have hrest : '@' :: rest ⊆ text := hstrip ▸ strip_subset text
      calc dropDecorators (afterArguments (afterSegments behind).stripStart)
          ⊆ afterArguments (afterSegments behind).stripStart := ih
        _ ⊆ (afterSegments behind).stripStart := afterArguments_subset _
        _ ⊆ afterSegments behind := stripStart_subset _
        _ ⊆ behind := afterSegments_subset _
        _ ⊆ rest := (isDollarName_of_dollarName? hname).2
        _ ⊆ '@' :: rest := List.subset_cons_self _ _
        _ ⊆ text := hrest
  | case2 text rest hstrip => exact hstrip ▸ strip_subset text
  | case3 text _ => exact strip_subset text

/-- A plain name holds no characters but those that were written. -/
theorem plainName_subset (name : Text) : plainName name ⊆ name := by
  refine List.Subset.trans (strip_subset _) fun c hc => ?_
  exact strip_subset name (List.mem_reverse.mp
    ((List.dropWhile_sublist _).subset (List.mem_reverse.mp hc)))

/-- Dropping a sign adds no character. -/
theorem dropSign_subset (signs : List Char) (text : Text) : dropSign signs text ⊆ text := by
  have hlead := stripStart_subset text
  unfold dropSign
  split
  · rename_i c rest hstart
    rw [hstart] at hlead
    split
    · exact List.Subset.trans (stripStart_subset rest)
        (List.Subset.trans (List.subset_cons_self _ _) hlead)
    · exact hlead
  · exact List.nil_subset _

/-- A member name has no blanks, and what follows it is a part of the text. -/
theorem memberName?_spec {name rest : Text} (h : memberName? text = some (name, rest)) :
    SpacesOnly name ∧ rest ⊆ text := by
  unfold memberName? at h
  split at h
  · obtain ⟨found, hfound, heq⟩ := Option.map_eq_some_iff.mp h
    cases heq
    obtain ⟨hname, hrest⟩ := isDollarName_of_dollarName? hfound
    exact ⟨spacesOnly_of_filled (List.forall_mem_cons.mpr
      ⟨by decide, not_blank_of_isDollarName hname⟩), List.subset_cons_of_subset _ hrest⟩
  · obtain ⟨hname, hrest⟩ := isDollarName_of_dollarName? h
    exact ⟨spacesOnly_of_filled (not_blank_of_isDollarName hname), hrest⟩

/-- What follows a constructor's keyword is part of the text. -/
theorem constructor?_subset {rest : Text} (h : constructor? text = some rest) : rest ⊆ text := by
  unfold constructor? at h
  dsimp only at h
  split at h
  · split at h
    · cases h
      exact List.Subset.trans (stripStart_subset _) (List.drop_subset _ _)
    · cases h
  · cases h

/-- The name of an accessor holds no blank but spaces, and what follows it is part of the text. -/
theorem accessor?_spec {reads : Bool} {name rest : Text}
    (h : accessor? text = some (reads, name, rest)) : SpacesOnly name ∧ rest ⊆ text := by
  unfold accessor? at h
  dsimp only at h
  split at h
  · split at h
    · rename_i found behind hfound
      obtain ⟨inner, hinner, hmember⟩ := Option.bind_eq_some_iff.mp hfound
      obtain ⟨hname, hbehind⟩ := memberName?_spec hmember
      split at h
      · cases h
        exact ⟨hname, List.Subset.trans (stripStart_subset _) (List.Subset.trans hbehind
          (List.Subset.trans (afterBlanks?_subset hinner) (spanWord_subset text)))⟩
      · cases h
    · cases h
  · cases h

/-- The name of a method holds no blank but spaces, and what follows it is part of the text. -/
theorem methodHead?_spec {name rest : Text} (h : methodHead? text = some (name, rest)) :
    SpacesOnly name ∧ rest ⊆ text := by
  unfold methodHead? at h
  split at h
  · rename_i found behind hmember
    obtain ⟨hname, hbehind⟩ := memberName?_spec hmember
    dsimp only at h
    split at h
    · cases h
      exact ⟨hname, List.Subset.trans (dropSign_subset _ _) hbehind⟩
    · cases h
  · cases h

/-- The name of a field holds no blank but spaces. -/
theorem spacesOnly_of_fieldHead? {name rest : Text} (h : fieldHead? text = some (name, rest)) :
    SpacesOnly name := by
  unfold fieldHead? at h
  split at h
  · rename_i found behind hmember
    dsimp only at h
    split at h
    · cases h
      exact (memberName?_spec hmember).1
    · cases h
  · cases h

/-! ## Types -/

/-- The type that stands for a missing one holds no blank but spaces either. -/
theorem spacesOnly_orAny {type : Text} (h : SpacesOnly type) : SpacesOnly (orAny type) := by
  unfold orAny
  split
  · decide
  · exact h

theorem spacesOnly_orVoid {type : Text} (h : SpacesOnly type) : SpacesOnly (orVoid type) := by
  unfold orVoid
  split
  · decide
  · exact h

/-- The type of a parameter is collapsed, its name is cut from the entry. -/
theorem parameter?_spec {entry : Text} {param : Parameter} (h : parameter? entry = some param) :
    SpacesOnly param.type ∧ param.name ⊆ entry := by
  unfold parameter? at h
  extract_lets bare plain declaration isProperty target at h
  have htarget : target ⊆ entry := by
    have hplain : plain ⊆ entry := by
      unfold plain
      split
      · exact List.Subset.trans (List.drop_subset _ _) (dropDecorators_subset entry)
      · exact dropDecorators_subset entry
    exact List.Subset.trans (beforeAssignment_subset _)
      (List.Subset.trans (dropLeading_subset _ _) hplain)
  -- with a colon the type stands behind it, without one the type is `any`
  split at h
  rename_i name type hsplit
  have hparts : SpacesOnly type ∧ name ⊆ entry := by
    split at hsplit
    · cases hsplit
      exact ⟨spacesOnly_collapse _, List.Subset.trans (List.take_subset _ _) htarget⟩
    · cases hsplit
      exact ⟨by decide, htarget⟩
  dsimp only at h
  split at h
  · cases h
  · cases h
    exact ⟨spacesOnly_orAny hparts.1, List.Subset.trans (plainName_subset _) hparts.2⟩

/-- The parameters' types hold no blank but spaces. -/
theorem spacesOnly_parameterTypes (params : Text) :
    ∀ type ∈ parameterTypes params, SpacesOnly type := by
  refine List.forall_mem_map.mpr fun param hparam => ?_
  obtain ⟨entry, _, hentry⟩ := List.mem_filterMap.mp hparam
  exact (parameter?_spec hentry).1

/-- A shape that is returned stands as it is written, anything else is collapsed. -/
theorem spacesOnly_returnType {tail : Text} (h : SpacesOnly tail) :
    SpacesOnly (returnType tail) := by
  unfold returnType
  split
  · rename_i rest hstrip
    have hwritten : SpacesOnly (strip rest) := by
      refine h.of_subset (List.Subset.trans (strip_subset rest)
        (List.Subset.trans (List.subset_cons_self ':' rest) ?_))
      exact hstrip ▸ strip_subset tail
    dsimp only
    split
    · split
      · exact hwritten.of_subset (List.take_subset _ _)
      · exact hwritten
    · split
      · exact spacesOnly_collapse _
      · exact spacesOnly_collapse _
  · exact List.forall_mem_nil _

/-- The parameters' types and the result of an arrow function hold no blank but spaces. -/
theorem arrowFunction?_spec {value result : Text} {params : List Text}
    (h : arrowFunction? value = some (params, result)) :
    (∀ param ∈ params, SpacesOnly param) ∧ SpacesOnly result := by
  unfold arrowFunction? at h
  extract_lets plain callable at h
  split at h
  · split at h
    · dsimp only at h
      split at h
      · cases h
        refine ⟨spacesOnly_parameterTypes _, spacesOnly_orVoid ?_⟩
        split
        · exact spacesOnly_collapse _
        · exact List.forall_mem_nil _
      · cases h
    · cases h
  · cases h

/-! ## Members -/

/-- A constructor's facts hold no blank but spaces. -/
theorem spaced_constructorFacts (howner : SpacesOnly owner.toList) (h : SpacesOnly text) :
    ∀ fact ∈ constructorFacts owner text, fact.Spaced := by
  have hparam : ∀ param ∈ parameters (splitGroup text).1,
      SpacesOnly param.type ∧ SpacesOnly param.name := by
    intro param hmem
    obtain ⟨entry, hentry, hread⟩ := List.mem_filterMap.mp hmem
    obtain ⟨htype, hname⟩ := parameter?_spec hread
    exact ⟨htype, h.of_subset (List.Subset.trans hname
      (List.Subset.trans (subset_of_mem_splitTop hentry) (splitGroup_subset text)))⟩
  refine List.forall_mem_append.mpr ⟨List.forall_mem_flatMap.mpr fun param hmem => ?_, ?_⟩
  · refine List.forall_mem_append.mpr ⟨spaced_usesOf _ _ _, ?_⟩
    split
    · exact List.forall_mem_singleton.mpr (spaced_field (hparam param hmem).2 (hparam param hmem).1)
    · exact List.forall_mem_nil _
  · exact spaced_ofMethod _ howner (by decide)
      (List.forall_mem_map.mpr fun param hmem => (hparam param hmem).1)

/-- An accessor's facts hold no blank but spaces. -/
theorem spaced_accessorFacts {name : Text} (hname : SpacesOnly name) (h : SpacesOnly text)
    (reads : Bool) : ∀ fact ∈ accessorFacts owner reads name text, fact.Spaced := by
  unfold accessorFacts
  split
  · rename_i close _
    refine spaced_ofField _ hname (spacesOnly_orAny ?_)
    split
    · exact spacesOnly_returnType (h.of_subset (List.drop_subset _ _))
    -- what is written has the type of the first parameter, if there is one
    · cases hfirst : (parameterTypes ((text.take close).drop 1)).head? with
      | none => exact List.forall_mem_nil _
      | some type => exact spacesOnly_parameterTypes _ type (List.mem_of_head? hfirst)
  · exact List.forall_mem_nil _

/-- A method's facts hold no blank but spaces. -/
theorem spaced_callableFacts {name : Text} (hname : SpacesOnly name) (h : SpacesOnly text) :
    ∀ fact ∈ callableFacts owner name text, fact.Spaced := by
  unfold callableFacts
  extract_lets params
  have hparams : params ⊆ text := by
    unfold params
    split
    · split
      · exact List.Subset.trans (stripStart_subset _) (List.drop_subset _ _)
      · exact List.nil_subset _
    · exact List.Subset.refl _
  split
  · split
    · refine spaced_ofMethod _ hname (spacesOnly_orVoid (spacesOnly_returnType ?_))
        (spacesOnly_parameterTypes _)
      exact h.of_subset (List.Subset.trans (List.drop_subset _ _) hparams)
    · exact List.forall_mem_nil _
  · exact List.forall_mem_nil _

/-- A field's facts hold no blank but spaces. -/
theorem spaced_valueFacts {name : Text} (hname : SpacesOnly name) (rest : Text) :
    ∀ fact ∈ valueFacts owner name rest, fact.Spaced := by
  unfold valueFacts
  split
  · dsimp only
    split
    · exact List.forall_mem_nil _
    · exact spaced_ofField _ hname (spacesOnly_collapse _)
  · split
    · rename_i hvalue
      obtain ⟨hparams, hresult⟩ := arrowFunction?_spec hvalue
      exact spaced_ofMethod _ hname hresult hparams
    · exact List.forall_mem_nil _
  · exact List.forall_mem_nil _

/-- A unit is collapsed before it is taken apart. -/
theorem spaced_unitFacts (howner : SpacesOnly owner.toList) (unit : Text) :
    ∀ fact ∈ unitFacts owner unit, fact.Spaced := by
  -- collapsing leaves no blank but spaces, and what is dropped later adds none
  have htext : SpacesOnly (dropLeading modifiers (dropDecorators unit.collapse)) :=
    (spacesOnly_collapse unit).of_subset
      (List.Subset.trans (dropLeading_subset _ _) (dropDecorators_subset _))
  unfold unitFacts
  dsimp only
  split
  · exact List.forall_mem_nil _
  · split
    · rename_i hrest
      exact spaced_constructorFacts howner (htext.of_subset (constructor?_subset hrest))
    · rename_i haccessor
      obtain ⟨hname, hrest⟩ := accessor?_spec haccessor
      exact spaced_accessorFacts hname (htext.of_subset hrest) _
    · rename_i hmethod
      obtain ⟨hname, hrest⟩ := methodHead?_spec hmethod
      split
      · exact List.forall_mem_nil _
      · exact spaced_callableFacts hname (htext.of_subset hrest)
    · split
      · rename_i hfield
        exact spaced_valueFacts (spacesOnly_of_fieldHead? hfield) _
      · exact List.forall_mem_nil _

/-- The facts of all the members of a body hold no blank but spaces. -/
theorem spaced_memberFacts (howner : SpacesOnly owner.toList) (shape : Bool) (body : Text) :
    ∀ fact ∈ memberFacts owner shape body, fact.Spaced :=
  List.forall_mem_flatMap.mpr fun unit _ => spaced_unitFacts howner unit

/-- A body's facts hold no blank but spaces, whatever kind of type it belongs to. -/
theorem spaced_bodyFacts (howner : SpacesOnly owner.toList) (keyword : String) (body : Text) :
    ∀ fact ∈ bodyFacts keyword owner body, fact.Spaced := by
  unfold bodyFacts
  split
  · refine List.forall_mem_flatMap.mpr fun entry _ => ?_
    dsimp only
    split
    · rename_i hitem
      exact List.forall_mem_singleton.mpr
        (spaced_enumMember (spacesOnly_of_filled (not_blank_of_isDollarName hitem)))
    · exact List.forall_mem_nil _
  · exact spaced_memberFacts howner _ _

/-! ## Declarations -/

/-- The name behind a keyword holds no blank. -/
theorem not_blank_of_keywordAndName? {keywords : List String} (text : Text) (keyword : String)
    (name rest : Text) (h : keywordAndName? keywords text = some (keyword, name, rest)) :
    ∀ c ∈ name, isBlank c = false := by
  unfold keywordAndName? at h
  dsimp only at h
  split at h
  · obtain ⟨found, hfound, heq⟩ := Option.map_eq_some_iff.mp h
    cases heq
    obtain ⟨_, _, hname⟩ := Option.bind_eq_some_iff.mp hfound
    exact not_blank_of_isDollarName (isDollarName_of_dollarName? hname).1
  · cases h

/-- The name of an alias holds no blank. -/
theorem not_blank_of_alias? (text : Text) (keyword : String) (name rest : Text)
    (h : alias? text = some (keyword, name, rest)) : ∀ c ∈ name, isBlank c = false := by
  obtain ⟨found, hfound, heq⟩ := Option.map_eq_some_iff.mp h
  cases heq
  exact not_blank_of_keywordAndName? _ _ _ _ hfound

/-- The facts of the object shapes in an alias hold no blank but spaces. -/
theorem spaced_shapes (howner : SpacesOnly owner.toList) (text : Text) :
    ∀ fact ∈ (shapes owner text).1, fact.Spaced := by
  fun_induction shapes owner text with
  | case1 => exact List.forall_mem_nil _
  | case2 rest close later outside heq _ ih =>
      rw [heq] at ih
      exact List.forall_mem_append.mpr ⟨spaced_memberFacts howner _ _, ih⟩
  | case3 => exact List.forall_mem_singleton.mpr (List.forall_mem_nil _)
  | case4 c rest _ later outside heq ih =>
      rw [heq] at ih
      exact ih

/-- An alias's facts hold no blank but spaces. -/
theorem spaced_aliasFacts {header : Header} (h : ∀ c ∈ header.name, isBlank c = false) :
    ∀ fact ∈ aliasFacts header, fact.Spaced := by
  have hname := spacesOnly_of_filled h
  unfold aliasFacts
  split
  · split
    · refine List.forall_mem_append.mpr ⟨List.forall_mem_cons.mpr
        ⟨spaced_of_name hname rfl, spaced_shapes ?_ _⟩,
        List.forall_mem_flatMap.mpr fun _ _ => spaced_usesOf _ _ _⟩
      rwa [String.toList_ofList]
    · exact List.forall_mem_nil _
  · exact List.forall_mem_nil _

/-- The facts of a header's clauses hold no blank but spaces. -/
theorem spaced_headerFacts (header : Text) : ∀ fact ∈ headerFacts owner header, fact.Spaced := by
  have hname : ∀ entry : Text, SpacesOnly (baseAndArguments entry.collapse).1 := fun entry =>
    (spacesOnly_collapse entry).of_subset (baseAndArguments_subset _)
  unfold headerFacts
  refine List.forall_mem_append.mpr ⟨?_, ?_⟩ <;>
    exact List.forall_mem_flatMap.mpr fun entry _ =>
      List.forall_mem_cons.mpr ⟨spaced_of_name (hname _) rfl, spaced_usesOf _ _ _⟩

/-- The facts of the type parameters hold no blank but spaces. -/
theorem spaced_typeParameterFacts (params : Text) :
    ∀ fact ∈ typeParameterFacts owner params, fact.Spaced := by
  refine List.forall_mem_flatMap.mpr fun param _ => ?_
  dsimp only
  split
  · exact spaced_usesOf _ _ _
  · exact List.forall_mem_nil _

/-- The facts of all declarations hold no blank but spaces. -/
theorem spaced_declarationFacts (text : Text) : ∀ fact ∈ declarationFacts text, fact.Spaced := by
  have hname : ∀ {text : Text} {header : Header}, headerRule.next? text = some header →
      SpacesOnly header.name := fun hnext =>
    spacesOnly_of_filled (HeaderRule.title_of_next? not_blank_of_keywordAndName? hnext)
  -- type parameters and clauses come before the body, which may be missing or not closed
  have hlead : ∀ {owner : String} (params bases : Text),
      ∀ fact ∈ typeParameterFacts owner params ++ headerFacts owner bases, fact.Spaced :=
    fun params bases => List.forall_mem_append.mpr
      ⟨spaced_typeParameterFacts params, spaced_headerFacts bases⟩
  fun_induction declarationFacts text with
  | case1 => exact List.forall_mem_nil _
  | case2 _ header hnext owner params behind start bases declaration _ ih =>
      exact List.forall_mem_append.mpr ⟨List.forall_mem_cons.mpr
        ⟨spaced_of_name (hname hnext) rfl, hlead _ _⟩, ih⟩
  | case3 _ header hnext owner params behind start bases declaration place _ _ ih =>
      refine List.forall_mem_append.mpr ⟨List.forall_mem_cons.mpr
        ⟨spaced_of_name (hname hnext) rfl, hlead _ _⟩, List.forall_mem_cons.mpr ⟨?_, ih⟩⟩
      exact List.forall_mem_nil _
  | case4 _ header hnext owner params behind start bases declaration place _ close _ ih =>
      refine List.forall_mem_append.mpr ⟨List.forall_mem_append.mpr ⟨List.forall_mem_cons.mpr
        ⟨spaced_of_name (hname hnext) rfl, hlead _ _⟩, spaced_bodyFacts ?_ _ _⟩, ih⟩
      rw [String.toList_ofList]
      exact hname hnext

/-- The facts of a source have no blanks but spaces. -/
theorem spaced_facts (source : Text) : ∀ fact ∈ facts source, fact.Spaced :=
  List.forall_mem_append.mpr ⟨List.forall_mem_flatMap.mpr fun header hheader =>
    spaced_aliasFacts (HeaderRule.title_of_mem_all not_blank_of_alias? header hheader),
    spaced_declarationFacts _⟩

end TypeScript

end ClassDiagram
