import ClassDiagram.Proofs.Reading.Spaces
import ClassDiagram.Reader.CSharp

/-!
# Blanks in what is read of C#

What is read of a C# source has no blanks but spaces, although declarations and members may run over
several lines. Type and name of a member are cut from a collapsed head, parameters from a statement
that was collapsed as a whole, and bases from a collapsed entry.

* `spacesOnly_of_typeAndName?`, `spacesOnly_parameterTypes`: what is cut from a statement.
* `spaced_statementFacts`, `spaced_headerFacts`: one statement, one header.
* `spaced_facts`: all facts of a source.
-/

namespace ClassDiagram

open Text

namespace CSharp

variable {owner : String} {text : Text}

/-! ## Cuts -/

/-- Dropping attributes adds no character. -/
theorem dropAttributes_subset (text : Text) : dropAttributes text ⊆ text := by
  fun_induction dropAttributes text with
  | case1 text rest hstrip close _ ih =>
      have hrest : '[' :: rest ⊆ text := hstrip ▸ strip_subset text
      calc dropAttributes (rest.drop close) ⊆ rest.drop close := ih
        _ ⊆ rest := List.drop_subset _ _
        _ ⊆ '[' :: rest := List.subset_cons_self _ _
        _ ⊆ text := hrest
  | case2 => exact List.nil_subset _
  | case3 text _ => exact strip_subset text

/-- Dropping modifiers adds no character. -/
theorem dropModifiers_subset (text : Text) : dropModifiers text ⊆ text := by
  fun_induction dropModifiers text with
  | case1 text _ ih => exact List.Subset.trans ih (past_subset ' ' text)
  | case2 => exact List.Subset.refl _

theorem unmark_subset (name : Text) : unmark name ⊆ name := (List.dropWhile_sublist _).subset

/-- What stands before type parameters is part of the text. -/
theorem beforeAngles?_subset {depth : Nat} {before : Text}
    (h : beforeAngles? depth text = some before) : before ⊆ text := by
  fun_induction beforeAngles? depth text with
  | case1 => cases h
  | case2 _ rest ih => exact List.subset_cons_of_subset _ (ih h)
  | case3 =>
      cases h
      exact List.subset_cons_self _ _
  | case4 _ rest _ ih => exact List.subset_cons_of_subset _ (ih h)
  | case5 _ _ rest _ _ ih => exact List.subset_cons_of_subset _ (ih h)

/-- Dropping type parameters adds no character. -/
theorem dropTypeParameters_subset (head : Text) : dropTypeParameters head ⊆ head := by
  unfold dropTypeParameters
  split
  · split
    · rename_i before hbefore
      dsimp only
      split
      · refine List.Subset.trans (stripEnd_subset _) fun c hc => ?_
        exact List.mem_reverse.mp (beforeAngles?_subset hbefore (List.mem_reverse.mp hc))
      · exact List.Subset.refl _
    · exact List.Subset.refl _
  · exact List.Subset.refl _

/-- Type and name are cut from the collapsed head. -/
theorem spacesOnly_of_typeAndName? {head type name : Text}
    (h : typeAndName? head = some (type, name)) : SpacesOnly type ∧ SpacesOnly name := by
  have hpart : ∀ part ∈ (dropTypeParameters head.collapse).splitTop (· == ' '), SpacesOnly part :=
    fun part hmem => (spacesOnly_collapse head).of_subset
      (List.Subset.trans (subset_of_mem_splitTop hmem) (dropTypeParameters_subset _))
  unfold typeAndName? at h
  extract_lets parts kept at h
  have hkept : ∀ part ∈ kept, SpacesOnly part := fun part hmem =>
    hpart part (List.mem_filter.mp hmem).1
  split at h
  · cases h
  · rename_i last hlast
    split at h
    · cases h
    · obtain ⟨rfl, rfl⟩ := Prod.mk.inj (Option.some.inj h)
      refine ⟨spacesOnly_join fun part hmem => hkept part (List.dropLast_subset _ hmem), ?_⟩
      exact (hkept last (List.mem_of_getLast? hlast)).of_subset
        (List.Subset.trans (simpleName_subset _) (unmark_subset _))

/-- The parameters' types hold no blank but spaces if the parameters do. -/
theorem spacesOnly_parameterTypes {params : Text} (h : SpacesOnly params) :
    ∀ type ∈ parameterTypes params, SpacesOnly type := by
  intro type htype
  obtain ⟨param, hparam, htype⟩ := List.mem_filterMap.mp htype
  have htoken : ∀ token ∈ ((dropAttributes param).beforeAssignment.splitTop (· == ' ')).filter
      (fun token => !parameterModifiers.contains (String.ofList token)), SpacesOnly token :=
    fun token hmem => h.of_subset <|
      calc token ⊆ (dropAttributes param).beforeAssignment :=
            subset_of_mem_splitTop (List.mem_filter.mp hmem).1
        _ ⊆ dropAttributes param := beforeAssignment_subset _
        _ ⊆ param := dropAttributes_subset _
        _ ⊆ params := subset_of_mem_splitTop hparam
  dsimp only at htype
  split at htype
  · cases htype
  · rename_i only hone
    cases htype
    exact htoken type (hone ▸ List.mem_singleton_self type)
  · cases htype
    exact spacesOnly_join fun token hmem => htoken token (List.dropLast_subset _ hmem)

/-- A member's name is made of word characters, dots and at signs. -/
theorem char_of_isMemberName {name : Text} (h : isMemberName name = true) :
    ∀ c ∈ name, isWordChar c = true ∨ c = '.' ∨ c = '@' := by
  have hrest : ∀ {first : Char} {rest : Text},
      (isNameStart first && rest.all fun c => isWordChar c || c == '.') = true →
        ∀ c ∈ first :: rest, isWordChar c = true ∨ c = '.' ∨ c = '@' := by
    intro first rest h
    obtain ⟨hfirst, hall⟩ := Bool.and_eq_true_iff.mp h
    refine List.forall_mem_cons.mpr
      ⟨Or.inl (isWordChar_of_identChar (isIdentChar_of_nameStart hfirst)), fun c hc => ?_⟩
    rcases Bool.or_eq_true_iff.mp (List.all_eq_true.mp hall c hc) with hword | hdot
    · exact Or.inl hword
    · exact Or.inr (Or.inl (beq_iff_eq.mp hdot))
  unfold isMemberName at h
  split at h
  · exact List.forall_mem_cons.mpr ⟨Or.inr (Or.inr rfl), hrest h⟩
  · exact hrest h
  · cases h

/-- A member's name holds no blank. -/
theorem not_blank_of_isMemberName {name : Text} (h : isMemberName name = true) :
    ∀ c ∈ name, isBlank c = false := by
  intro c hc
  rcases char_of_isMemberName h c hc with hword | rfl | rfl
  · exact not_blank_of_wordChar hword
  · decide
  · decide

theorem spacesOnly_of_isPlainMemberName {name : Text} (h : isPlainMemberName name = true) :
    SpacesOnly name :=
  spacesOnly_of_filled (not_blank_of_isMemberName (Bool.and_eq_true_iff.mp h).1)

/-! ## Members -/

/-- The facts of a property's head hold no blank but spaces. -/
theorem spaced_headFacts (head : Text) : ∀ fact ∈ headFacts owner head, fact.Spaced := by
  unfold headFacts
  split
  · rename_i hhead
    obtain ⟨htype, hname⟩ := spacesOnly_of_typeAndName? hhead
    exact spaced_ofField _ hname htype
  · exact List.forall_mem_nil _

/-- The facts of a method hold no blank but spaces. -/
theorem spaced_callableFacts (h : SpacesOnly text) (paren : Nat) :
    ∀ fact ∈ callableFacts owner text paren, fact.Spaced := by
  have hvoid : SpacesOnly "void".toList := by decide
  have hparams := spacesOnly_parameterTypes (h.of_subset
    (List.Subset.trans (splitGroup_subset (text.drop paren)) (List.drop_subset _ _)))
  unfold callableFacts
  dsimp only
  split
  · rename_i hhead
    obtain ⟨htype, hname⟩ := spacesOnly_of_typeAndName? hhead
    refine spaced_ofMethod _ hname ?_ hparams
    split
    · exact hvoid
    · exact htype
  -- without a type only a constructor is read, and its head is a part of the statement
  · split
    · refine spaced_ofMethod _ (h.of_subset ?_) hvoid hparams
      exact List.Subset.trans (strip_subset _) (List.take_subset _ _)
    · exact List.forall_mem_nil _

/-- The facts of fields that are declared together hold no blank but spaces. -/
theorem spaced_declaratorFacts (text : Text) :
    ∀ fact ∈ declaratorFacts owner text, fact.Spaced := by
  unfold declaratorFacts
  split
  · exact List.forall_mem_nil _
  · split
    · exact List.forall_mem_nil _
    · rename_i hfirst
      obtain ⟨htype, hname⟩ := spacesOnly_of_typeAndName? hfirst
      refine List.forall_mem_append.mpr ⟨spaced_ofField _ hname htype,
        List.forall_mem_flatMap.mpr fun other _ => ?_⟩
      dsimp only
      split
      · rename_i hextra
        exact spaced_ofField _
          ((spacesOnly_of_isPlainMemberName hextra).of_subset (unmark_subset _)) htype
      · exact List.forall_mem_nil _

/-- A statement is collapsed before it is taken apart. -/
theorem spaced_statementFacts (statement : Text) :
    ∀ fact ∈ statementFacts owner statement, fact.Spaced := by
  have htext : SpacesOnly (dropModifiers (dropAttributes statement).collapse) :=
    (spacesOnly_collapse _).of_subset (dropModifiers_subset _)
  unfold statementFacts
  dsimp only
  split
  · exact List.forall_mem_nil _
  · exact List.forall_mem_nil _
  · split
    · exact spaced_callableFacts htext _
    · split
      · exact spaced_headFacts _
      · split
        · exact spaced_headFacts _
        · exact spaced_declaratorFacts _

/-- The facts of a body's members hold no blank but spaces. -/
theorem spaced_memberFacts (body : Text) : ∀ fact ∈ memberFacts owner body, fact.Spaced := by
  refine List.forall_mem_append.mpr ⟨List.forall_mem_flatMap.mpr fun statement _ =>
    spaced_statementFacts statement, List.forall_mem_flatMap.mpr fun line _ => ?_⟩
  unfold lineFacts
  dsimp only
  split
  · split
    · exact List.forall_mem_nil _
    · exact spaced_headFacts _
  · split
    · exact spaced_statementFacts _
    · exact List.forall_mem_nil _

/-- The facts of an enum's members hold no blank but spaces. -/
theorem spaced_enumFacts (body : Text) : ∀ fact ∈ enumFacts owner body, fact.Spaced := by
  refine List.forall_mem_flatMap.mpr fun entry _ => ?_
  dsimp only
  split
  · rename_i hitem
    exact List.forall_mem_singleton.mpr
      (spaced_enumMember ((spacesOnly_of_isPlainMemberName hitem).of_subset (unmark_subset _)))
  · exact List.forall_mem_nil _

/-! ## Declarations -/

/-- The facts of a primary constructor hold no blank but spaces. -/
theorem spaced_primaryFacts (keyword : String) (params : Text) :
    ∀ fact ∈ primaryFacts keyword owner params, fact.Spaced := by
  unfold primaryFacts
  split
  · exact List.forall_mem_flatMap.mpr fun param _ => spaced_headFacts _
  · exact List.forall_mem_flatMap.mpr fun type _ => spaced_usesOf _ _ _

theorem spaced_constraintFacts (text : Text) :
    ∀ fact ∈ constraintFacts owner text, fact.Spaced :=
  List.forall_mem_flatMap.mpr fun _ _ => List.forall_mem_flatMap.mpr fun _ _ => spaced_usesOf _ _ _

/-- The facts of a base hold no blank but spaces. -/
theorem spaced_baseFacts (isBase : Bool) (entry : Text) :
    ∀ fact ∈ baseFacts owner isBase entry, fact.Spaced := by
  have hname : SpacesOnly (baseAndArguments (entry.upTo '(').collapse).1 :=
    (spacesOnly_collapse _).of_subset (baseAndArguments_subset _)
  unfold baseFacts
  dsimp only
  split
  · exact List.forall_mem_nil _
  · refine List.forall_mem_cons.mpr ⟨?_, spaced_usesOf _ _ _⟩
    split
    · exact spaced_of_name hname rfl
    · exact spaced_of_name hname rfl

/-- The facts of a base list hold no blank but spaces. -/
theorem spaced_baseListFacts (keyword : String) (list : Text) :
    ∀ fact ∈ baseListFacts keyword owner list, fact.Spaced := by
  unfold baseListFacts
  split
  · exact List.forall_mem_nil _
  · exact List.forall_mem_append.mpr ⟨spaced_baseFacts _ _,
      List.forall_mem_flatMap.mpr fun _ _ => spaced_baseFacts _ _⟩

/-- The facts of a header hold no blank but spaces. -/
theorem spaced_headerFacts (keyword : String) (header : Text) :
    ∀ fact ∈ headerFacts keyword owner header, fact.Spaced := by
  unfold headerFacts
  extract_lets text primary
  split
  extract_lets lead rest
  refine List.forall_mem_append.mpr ⟨?_, ?_⟩
  · unfold lead
    split
    · exact spaced_primaryFacts _ _
    · exact List.forall_mem_nil _
  · split
    · split
      · exact List.forall_mem_append.mpr ⟨spaced_constraintFacts _, spaced_baseListFacts _ _⟩
      · exact spaced_baseListFacts _ _
    · exact spaced_constraintFacts _

/-- The facts of a body hold no blank but spaces. -/
theorem spaced_bodyFacts? {keyword : String} {rest : Text} {start : Nat} {members : List Fact}
    (h : bodyFacts? keyword owner rest start = some members) : ∀ fact ∈ members, fact.Spaced := by
  obtain ⟨close, _, rfl⟩ := Option.map_eq_some_iff.mp h
  dsimp only
  split
  · exact spaced_enumFacts _
  · exact spaced_memberFacts _

/-- The name in a header has no blanks. -/
theorem not_blank_of_header? (text : Text) (keyword : String) (name rest : Text)
    (h : header? text = some (keyword, name, rest)) : ∀ c ∈ name, isBlank c = false := by
  have hmarked : ∀ {text name rest : Text}, markedName? text = some (name, rest) →
      ∀ c ∈ name, isBlank c = false := by
    intro text name rest h
    unfold markedName? at h
    split at h
    · obtain ⟨found, hfound, heq⟩ := Option.map_eq_some_iff.mp h
      cases heq
      exact List.forall_mem_cons.mpr ⟨by decide, not_blank_of_name? hfound⟩
    · exact not_blank_of_name? h
  have hbehind : ∀ {text name rest : Text}, nameBehind? text = some (name, rest) →
      ∀ c ∈ name, isBlank c = false := by
    intro text name rest h
    obtain ⟨_, _, hname⟩ := Option.bind_eq_some_iff.mp h
    exact hmarked hname
  -- behind `record` a further keyword may stand before the name
  have hrecord : ∀ {text name rest : Text}, recordName? text = some (name, rest) →
      ∀ c ∈ name, isBlank c = false := by
    intro text name rest h
    rcases Option.or_eq_some_iff.mp h with hlong | ⟨_, hshort⟩
    · obtain ⟨_, _, hname⟩ := Option.bind_eq_some_iff.mp hlong
      dsimp only at hname
      split at hname
      · exact hbehind hname
      · cases hname
    · exact hbehind hshort
  unfold header? at h
  dsimp only at h
  split at h
  · obtain ⟨found, hfound, heq⟩ := Option.map_eq_some_iff.mp h
    cases heq
    split at hfound
    · exact hrecord hfound
    · exact hbehind hfound
  · cases h

/-- The facts of all declarations hold no blank but spaces. -/
theorem spaced_factsFrom (offset : Nat) (text : Text) :
    ∀ fact ∈ factsFrom offset text, fact.Spaced := by
  have hname : ∀ {text : Text} {header : Header}, headerRule.next? text = some header →
      SpacesOnly (unmark header.name) := fun hnext =>
    (spacesOnly_of_filled (HeaderRule.title_of_next? not_blank_of_header? hnext)).of_subset
      (unmark_subset _)
  -- the induction goes from header to header, and each declares a name without blanks
  fun_induction factsFrom offset text with
  | case1 => exact List.forall_mem_nil _
  | case2 offset text header hnext owner place behind stop declaration members hmembers _ ih =>
      refine List.forall_mem_append.mpr ⟨List.forall_mem_append.mpr ⟨List.forall_mem_cons.mpr
        ⟨spaced_of_name (hname hnext) rfl, spaced_headerFacts _ _⟩, spaced_bodyFacts? hmembers⟩, ih⟩
  | case3 offset text header hnext owner place behind stop declaration _ _ ih =>
      refine List.forall_mem_append.mpr ⟨List.forall_mem_cons.mpr
        ⟨spaced_of_name (hname hnext) rfl, spaced_headerFacts _ _⟩,
        List.forall_mem_cons.mpr ⟨?_, ih⟩⟩
      exact List.forall_mem_nil _
  | case4 offset text header hnext owner place behind stop hasBody _ declaration _ ih =>
      exact List.forall_mem_append.mpr ⟨List.forall_mem_cons.mpr
        ⟨spaced_of_name (hname hnext) rfl, spaced_headerFacts _ _⟩, ih⟩

/-- The facts of a source have no blanks but spaces. -/
theorem spaced_facts (source : Text) : ∀ fact ∈ facts source, fact.Spaced := spaced_factsFrom 0 _

end CSharp

end ClassDiagram
