import ClassDiagram.Proofs.Model.Declared
import ClassDiagram.Proofs.Rendered.Nominal
import ClassDiagram.Reader.CSharpMember

/-!
# Written members of C# types

The members of a class as they are written: a field, a property with its two accessors, and a
method with an empty body, each behind any number of modifiers. This file says how a statement
that is a written member is read.

* `typeAndName?_declared`: modifiers are dropped, and type and name are told apart.
* `parameterTypes_join`: the types of a written parameter list.
* `statementFacts_member`: a statement that is a member tells exactly that member.
-/

namespace ClassDiagram

namespace CSharp

open Text

/-- The words that are no identifiers of a written class. -/
def reservedWords : List String :=
  modifiers ++ parameterModifiers ++ typeKeywords ++
    ["where", "operator", "delegate", "using", "namespace", "return"]

/-- A word that modifies a member. -/
abbrev Modifier := { word : String // word ∈ modifiers }

/-- A type and the name of what has it: a member or a parameter. -/
structure Typed where
  type : Nominal reservedWords
  name : Ident reservedWords

/-- Type and name as they are written. -/
def Typed.text (typed : Typed) : Text := typed.type.text ++ ' ' :: typed.name.chars

/-- What makes a member a field, a property or a method. -/
inductive Shape where
  | field
  | property
  | method (params : List Typed)

/-- What the braces of a property hold. -/
def Shape.words : Text := " get; set; ".toList

/-- The accessors of a property in their braces. -/
def Shape.accessors : Text := '\x7b' :: (words ++ ['\x7d'])

/-- The empty body of a method. -/
def Shape.block : Text := "\x7b \x7d".toList

/-- What a statement holds behind type and name. -/
def Shape.text : Shape → Text
  | field => []
  | property => ' ' :: accessors
  | method params => '(' :: (join [',', ' '] (params.map Typed.text) ++ ')' :: ' ' :: block)

/-- A member: modifiers, type and name, and its shape. -/
structure Member where
  mods : List Modifier
  typed : Typed
  shape : Shape

namespace Member

/-- Modifiers as they are written, with a space behind each. -/
def modsText (mods : List Modifier) : Text := mods.flatMap fun word => word.val.toList ++ [' ']

/-- The statement of a member. -/
def text (member : Member) : Text :=
  modsText member.mods ++ (member.typed.text ++ member.shape.text)

/-- The types that a member names, in the order in which they are met. -/
def types (member : Member) : List (Nominal reservedWords) :=
  match member.shape with
  | .field | .property => [member.typed.type]
  | .method params => params.map Typed.type ++ [member.typed.type]

/-- What a member tells of its class. -/
def toClassMember (member : Member) : ClassMember :=
  let type := String.ofList member.typed.type.text
  let used := member.types.flatMap fun type => Dialect.cSharp.usedNames type.text
  match member.shape with
  | .field | .property => .field ⟨member.typed.name.name, type⟩ used
  | .method params =>
    .method ⟨member.typed.name.name, type, params.map fun param => String.ofList param.type.text⟩
      used

end Member

/-! ## What is written before the shape -/

/-- A reserved word is written with word characters. -/
theorem reservedWords_word : ∀ word ∈ reservedWords, ∀ c ∈ word.toList, isWordChar c = true := by
  have hall : ∀ word ∈ reservedWords, word.toList.all isWordChar = true := by decide
  exact fun word hword => List.all_eq_true.mp (hall word hword)

/-- The empty text, which stands between any two marks, is no reserved word. -/
theorem empty_not_mem_reservedWords : "" ∉ reservedWords := by decide

/-- The modifiers are reserved, so that no type or name is one. -/
theorem modifiers_subset : modifiers ⊆ reservedWords := by decide

/-- What stands outside of the brackets of type and name. -/
def isTypedChar (c : Char) : Bool := Nominal.isTypeChar c || c == ' '

namespace Typed

variable (typed : Typed)

/-- A type and a name are written with one space between them. -/
theorem tidy : Tidy typed.text := typed.type.tidy.spaced typed.name.tidy

theorem starts : StartsIdent typed.text := typed.type.starts.append _

/-- Neither the type nor the name is a reserved word. -/
theorem avoids : Avoids reservedWords typed.text :=
  (typed.type.avoids empty_not_mem_reservedWords).append_cons (by decide) typed.name.avoids

/-- A typed name closes every bracket that it opens. -/
theorem balanced : Balanced .all (fun c => isTypedChar c = true) typed.text := by
  refine (typed.type.balanced.mono ?_).append (.char (by decide) (by decide) ?_)
  · intro c hc
    rw [isTypedChar, hc, Bool.true_or]
  · refine typed.name.balanced ?_
    intro c hc
    rw [isTypedChar, Nominal.isTypeChar, hc, Bool.true_or, Bool.true_or]

/-- The characters of type and name. -/
theorem spelled : Spelled isTypedChar [','] typed.text := by
  have htype : ∀ c, Nominal.isTypeChar c = true → isTypedChar c = true := by
    intro c hc
    rw [isTypedChar, hc, Bool.true_or]
  have hname : ∀ c ∈ typed.name.chars, isTypedChar c = true := by
    intro c hc
    exact htype c (Nominal.isTypeChar_of_dotted (Or.inl (typed.name.identChar c hc)))
  exact .append
    (typed.type.spelled.forall_mem (fun c hc => Or.inl (htype c hc)) (forall_chars (by decide)))
    (.cons (by decide) (.of_letters hname))

end Typed

section Modifiers

variable (mods : List Modifier) {text : Text}

/-- A modifier is written with the characters of names. -/
theorem modifier_word (word : Modifier) : ∀ c ∈ word.val.toList, isIdentChar c = true := by
  have hall : ∀ word ∈ modifiers, word.toList.all isIdentChar = true := by decide
  exact List.all_eq_true.mp (hall word.val word.property)

theorem modifier_ne_nil (word : Modifier) : word.val.toList ≠ [] := by
  have hall : ∀ word ∈ modifiers, word.toList ≠ [] := by decide
  exact hall word.val word.property

/-- The modifiers stand one after the other with a space behind each. -/
theorem modsText_cons (word : Modifier) (rest : List Modifier) :
    Member.modsText (word :: rest) ++ text =
      word.val.toList ++ ' ' :: (Member.modsText rest ++ text) := by
  simp [Member.modsText]

/-- Modifiers keep a text tidy. -/
theorem tidy_modsText (h : Tidy text) : Tidy (Member.modsText mods ++ text) := by
  induction mods with
  | nil => exact h
  | cons word rest ih =>
      rw [modsText_cons]
      exact .space (modifier_ne_nil word)
        (fun c hc => not_blank_of_identChar (modifier_word word c hc)) ih

/-- With modifiers before it, a text still starts as a name does. -/
theorem starts_modsText (h : StartsIdent text) : StartsIdent (Member.modsText mods ++ text) := by
  cases mods with
  | nil => exact h
  | cons word rest =>
      rw [modsText_cons]
      cases hword : word.val.toList with
      | nil => exact absurd hword (modifier_ne_nil word)
      | cons c tail =>
          exact ⟨c, _, rfl, modifier_word word c (by rw [hword]; exact List.mem_cons_self)⟩

/-- Modifiers are dropped up to the first word that is none. -/
theorem dropModifiers_modsText (hne : text ≠ []) (h : Avoids modifiers text) :
    dropModifiers (Member.modsText mods ++ text) = text := by
  induction mods with
  | nil =>
      have hfirst : modifiers.contains (String.ofList (upTo ' ' text)) = false := by
        simpa using h.upTo_space fun word hword => reservedWords_word word (modifiers_subset hword)
      rw [Member.modsText, List.flatMap_nil, List.nil_append, dropModifiers, if_neg]
      rw [hfirst]
      exact fun hc => Bool.false_ne_true hc.1
  | cons word rest ih =>
      have hspace : ' ' ∉ word.val.toList := fun hmem =>
        absurd (modifier_word word _ hmem) (by decide)
      have hknown : modifiers.contains (String.ofList word.val.toList) = true := by
        simpa using word.property
      rw [modsText_cons, dropModifiers, upTo_append_mark hspace, past_append_mark hspace,
        if_pos ⟨hknown, by simp [hne]⟩, ih]

/-- Without a bracket at its front, a text has no attributes. -/
theorem dropAttributes_plain {text : Text} (h : (strip text).head? ≠ some '[') :
    dropAttributes text = strip text := by
  rw [dropAttributes]
  split
  · rename_i hfound
    rw [hfound] at h
    exact absurd rfl h
  · rfl

/-- A member has no attributes, so that only the blanks around it are dropped. -/
theorem dropAttributes_padded (h : Tidy text) (hstarts : StartsIdent text) {lead trail : Text}
    (hlead : ∀ c ∈ lead, isBlank c = true) (htrail : ∀ c ∈ trail, isBlank c = true) :
    dropAttributes (lead ++ (text ++ trail)) = text := by
  obtain ⟨c, rest, rfl, hc⟩ := hstarts
  have hstrip := h.strip_padded hlead htrail
  rw [dropAttributes_plain, hstrip]
  rw [hstrip]
  simpa using ne_of_identChar hc (by decide)

end Modifiers

/-! ## Type and name -/

section Names

variable (name : Ident reservedWords)

/-- Every identifier can be a member's name. -/
theorem isMemberName_ident : isMemberName name.chars = true := by
  obtain ⟨c, rest, hchars, hc⟩ := name.starts
  have hident := name.isIdent
  rw [hchars] at hident ⊢
  simp only [isIdent, Bool.and_eq_true, List.all_eq_true] at hident
  have hrest : rest.all (fun c => isWordChar c || c == '.') = true := by
    rw [List.all_eq_true]
    intro d hd
    rw [isWordChar_of_identChar (hident.2 d hd), Bool.true_or]
  unfold isMemberName
  split
  · rename_i heq
    injection heq with hat _
    rw [hat] at hc
    exact absurd hc (by decide)
  · rename_i heq
    injection heq with hfirst htail
    rw [← hfirst, ← htail, hident.1, hrest]
    rfl
  · rename_i heq
    exact absurd heq (List.cons_ne_nil _ _)

theorem unmark_ident : unmark name.chars = name.chars := by
  obtain ⟨c, rest, hchars, hc⟩ := name.starts
  rw [unmark, hchars, List.dropWhile_cons_of_neg]
  simpa using ne_of_identChar hc (by decide)

/-- An identifier has no dots, so that its last part is all of it. -/
theorem simpleName_ident : simpleName name.chars = name.chars :=
  simpleName_of_not_mem (name.not_mem (by decide))

end Names

/-- Modifiers are like further items of the list that they stand before. -/
theorem modsText_append_join (mods : List Modifier) {items : List Text} (hne : items ≠ []) :
    Member.modsText mods ++ join [' '] items =
      join [' '] (mods.map (fun word => word.val.toList) ++ items) := by
  induction mods with
  | nil => rfl
  | cons word rest ih =>
      rw [modsText_cons, ih, List.map_cons, List.cons_append]
      cases hitems : rest.map (fun word => word.val.toList) ++ items with
      | nil => exact absurd (List.append_eq_nil_iff.mp hitems).2 hne
      | cons first others =>
          rw [join, join, List.intercalate_cons_cons, List.append_assoc]
          rfl

/-- The words of modifiers, type and name. -/
theorem splitTop_declared (mods : List Modifier) (typed : Typed) :
    splitTop (Member.modsText mods ++ typed.text) (· == ' ') =
      mods.map (fun word => word.val.toList) ++ [typed.type.text, typed.name.chars] := by
  have hsplit : splitTop ([] ++ join [' '] (mods.map (fun word => word.val.toList) ++
        [typed.type.text, typed.name.chars])) (· == ' ') =
      mods.map (fun word => word.val.toList) ++ [typed.type.text, typed.name.chars] := by
    have htop : ∀ d, Nominal.isTypeChar d = true → (d == ' ') = false := by
      intro d hd
      exact beq_eq_false_iff_ne.mpr (ne_of_class hd (by decide))
    refine splitTop_join (by decide) (by decide) (by simp) htop ?_ (by simp)
    intro item hitem
    rcases List.mem_append.mp hitem with hitem | hitem
    · obtain ⟨word, _, rfl⟩ := List.mem_map.mp hitem
      have hword := modifier_word word
      refine ⟨.of_ordinary fun c hc => ⟨isOrdinary_of_identChar (hword c hc), ?_⟩,
        .word (modifier_ne_nil word) fun c hc => not_blank_of_identChar (hword c hc)⟩
      rw [Nominal.isTypeChar, hword c hc, Bool.true_or]
    · rcases List.mem_pair.mp hitem with rfl | rfl
      · exact ⟨typed.type.balanced, typed.type.tidy⟩
      · refine ⟨typed.name.balanced fun c hc => ?_, typed.name.tidy⟩
        rw [Nominal.isTypeChar, hc, Bool.true_or]
  rwa [List.nil_append, ← modsText_append_join mods (List.cons_ne_nil _ _), join_pair] at hsplit

/-- Modifiers are dropped, and type and name are told apart. -/
theorem typeAndName?_declared (mods : List Modifier) (typed : Typed) {trail : Text}
    (htrail : ∀ c ∈ trail, isBlank c = true) :
    typeAndName? (Member.modsText mods ++ (typed.text ++ trail)) =
      some (typed.type.text, typed.name.chars) := by
  have hcollapse : collapse (Member.modsText mods ++ (typed.text ++ trail)) =
      Member.modsText mods ++ typed.text := by
    rw [← List.append_assoc]
    exact (tidy_modsText mods typed.tidy).collapse_before htrail
  have hlast : (Member.modsText mods ++ typed.text).getLast? ≠ some '>' := by
    intro hlast
    rw [Typed.text, ← List.append_assoc, List.getLast?_append_of_ne_nil _ (List.cons_ne_nil _ _),
      List.getLast?_cons_of_ne_nil typed.name.ne_nil] at hlast
    exact absurd (typed.name.identChar _ (List.mem_of_getLast? hlast)) (by decide)
  have hdrop : dropTypeParameters (Member.modsText mods ++ typed.text) =
      Member.modsText mods ++ typed.text := by
    rw [dropTypeParameters, if_neg hlast]
  -- neither the type nor the name is a modifier, so the filter drops the modifiers alone
  have hwords : ∀ word ∈ modifiers, ∀ c ∈ word.toList, isWordChar c = true :=
    fun word hword => reservedWords_word word (modifiers_subset hword)
  have htype : String.ofList typed.type.text ∉ modifiers :=
    Avoids.not_mem ((typed.type.avoids empty_not_mem_reservedWords).mono modifiers_subset) hwords
  have hname : String.ofList typed.name.chars ∉ modifiers :=
    Avoids.not_mem (typed.name.avoids.mono modifiers_subset) hwords
  have hfilter : (mods.map (fun word => word.val.toList) ++
        [typed.type.text, typed.name.chars]).filter
        (fun part => !modifiers.contains (String.ofList part)) =
      [typed.type.text, typed.name.chars] := by
    rw [List.filter_append, List.filter_eq_nil_iff.mpr]
    · simp [htype, hname]
    · intro part hpart
      obtain ⟨word, _, rfl⟩ := List.mem_map.mp hpart
      simpa using word.property
  have hsemicolon : typed.type.text.contains ';' = false := by
    simpa using typed.type.spelled.not_mem (c := ';') (by decide) (by decide)
  have hequals : typed.type.text.contains '=' = false := by
    simpa using typed.type.spelled.not_mem (c := '=') (by decide) (by decide)
  have hjoin : join [' '] [typed.type.text] = typed.type.text := by simp [join]
  have hend : [typed.type.text, typed.name.chars].getLast? = some typed.name.chars := rfl
  have hfront : [typed.type.text, typed.name.chars].dropLast = [typed.type.text] := rfl
  unfold typeAndName?
  simp only [hcollapse, hdrop, splitTop_declared, hfilter, hend, hfront, hjoin]
  rw [isMemberName_ident, hsemicolon, hequals, if_neg (by simp), unmark_ident, simpleName_ident]

/-- A typed name is read as its type and its name. -/
theorem typeAndName?_typed (typed : Typed) :
    typeAndName? typed.text = some (typed.type.text, typed.name.chars) := by
  have hdeclared : typeAndName? (Member.modsText [] ++ (typed.text ++ [])) =
      some (typed.type.text, typed.name.chars) := typeAndName?_declared [] typed (by simp)
  rwa [List.append_nil] at hdeclared

/-- The types of a written parameter list. -/
theorem parameterTypes_join (params : List Typed) :
    parameterTypes (join [',', ' '] (params.map Typed.text)) =
      params.map fun param => param.type.text := by
  have hsplit : splitTop (join [',', ' '] (params.map Typed.text)) = params.map Typed.text := by
    refine splitTop_commas (show isTypedChar ',' = false by decide) ?_
    intro item hitem
    obtain ⟨param, _, rfl⟩ := List.mem_map.mp hitem
    exact ⟨param.balanced, param.tidy⟩
  have hsub : parameterModifiers ⊆ reservedWords := by decide
  have hwords : ∀ word ∈ parameterModifiers, ∀ c ∈ word.toList, isWordChar c = true :=
    fun word hword => reservedWords_word word (hsub hword)
  unfold parameterTypes
  rw [hsplit, List.filterMap_map]
  rw [← List.filterMap_eq_map]
  refine List.filterMap_congr fun param _ => ?_
  have hdrop : dropAttributes param.text = param.text := by
    have hpadded : dropAttributes ([] ++ (param.text ++ [])) = param.text :=
      dropAttributes_padded param.tidy param.starts (by simp) (by simp)
    rwa [List.nil_append, List.append_nil] at hpadded
  have hsplitParam : splitTop param.text (· == ' ') = [param.type.text, param.name.chars] :=
    splitTop_declared [] param
  have htype : String.ofList param.type.text ∉ parameterModifiers :=
    Avoids.not_mem ((param.type.avoids empty_not_mem_reservedWords).mono hsub) hwords
  have hname : String.ofList param.name.chars ∉ parameterModifiers :=
    Avoids.not_mem (param.name.avoids.mono hsub) hwords
  have hfilter : [param.type.text, param.name.chars].filter
      (fun token => !parameterModifiers.contains (String.ofList token)) =
      [param.type.text, param.name.chars] := by
    simp [htype, hname]
  simp only [Function.comp_apply, hdrop, beforeAssignment_balanced param.balanced, hsplitParam,
    hfilter]
  simp [join]

/-! ## Statements -/

/-- What starts with no type keyword is not a header. -/
theorem header?_eq_none {text : Text} (h : String.ofList (spanWord text).1 ∉ typeKeywords) :
    header? text = none := by
  have hword : typeKeywords.contains (String.ofList (spanWord text).1) = false := by
    simpa using h
  unfold header?
  simp only [hword]
  rfl

/-- A text of free words declares something. -/
theorem isPassedOver_eq_false {text : Text} (h : Avoids reservedWords text)
    (hstarts : StartsIdent text) : isPassedOver text = false := by
  have hfirst : String.ofList (upTo ' ' text) ∉ ["delegate", "using", "namespace", "return"] := by
    have hsub : ["delegate", "using", "namespace", "return"] ⊆ reservedWords := by decide
    exact (h.mono hsub).upTo_space fun word hword => reservedWords_word word (hsub hword)
  have hheader : header? text = none := by
    have hfree : Avoids typeKeywords text := h.mono (by decide)
    exact header?_eq_none (hfree _ (List.mem_of_mem_head? (head?_wordRuns text)))
  have hoperator : includes (' ' :: text ++ [' ']) " operator ".toList = false := by
    rw [show " operator ".toList = ' ' :: "operator".toList ++ [' '] by decide]
    exact not_includes_of_avoids h empty_not_mem_reservedWords (by decide)
      (forall_chars (by decide))
  -- the other reasons look at the first character only
  obtain ⟨c, rest, rfl, hc⟩ := hstarts
  have hne : ∀ d, isIdentChar d = false → (c == d) = false := fun d hd =>
    beq_eq_false_iff_ne.mpr (ne_of_identChar hc hd)
  have hwords : ["delegate", "using", "namespace", "return"].contains
      (String.ofList (upTo ' ' (c :: rest))) = false := by
    simpa using hfirst
  simp only [isPassedOver, hne _ (show isIdentChar '=' = false by decide),
    hne _ (show isIdentChar '\x7d' = false by decide),
    hne _ (show isIdentChar '\x7b' = false by decide),
    hne _ (show isIdentChar '~' = false by decide), hwords, hheader, hoperator]
  rfl

namespace Shape

variable (typed : Typed) (params : List Typed)

/-- The accessors, word by word. -/
theorem accessors_eq : accessors = ['\x7b'] ++ ' ' :: (['g', 'e', 't', ';'] ++
    ' ' :: (['s', 'e', 't', ';'] ++ ' ' :: ['\x7d'])) := rfl

theorem block_eq : block = ['\x7b'] ++ ' ' :: ['\x7d'] := rfl

theorem tidy_accessors : Tidy accessors := by
  rw [accessors_eq]
  exact .space (by decide) (forall_chars (by decide)) (.space (by decide) (forall_chars (by decide))
    (.space (by decide) (forall_chars (by decide)) (.word (by decide) (forall_chars (by decide)))))

theorem tidy_block : Tidy block := by
  rw [block_eq]
  exact .space (by decide) (forall_chars (by decide)) (.word (by decide) (forall_chars (by decide)))

/-- A member is tidy in each of its shapes. -/
theorem tidy (shape : Shape) : Tidy (typed.text ++ shape.text) := by
  cases shape with
  | field =>
      rw [Shape.text, List.append_nil]
      exact typed.tidy
  | property =>
      rw [Shape.text]
      exact typed.tidy.spaced tidy_accessors
  | method params =>
      have hlist : Tidy ('(' :: (join [',', ' '] (params.map Typed.text) ++ [')'])) := by
        refine Tidy.listed (by decide) (by decide) ?_
        intro item hitem
        obtain ⟨param, _, rfl⟩ := List.mem_map.mp hitem
        exact param.tidy
      have hall := (typed.tidy.append hlist).spaced tidy_block
      rw [Shape.text]
      simpa using hall

/-- What the shape adds to a member holds no reserved word. -/
theorem avoids (shape : Shape) : Avoids reservedWords (typed.text ++ shape.text) := by
  cases shape with
  | field =>
      rw [Shape.text, List.append_nil]
      exact typed.avoids
  | property =>
      have hblock : Avoids reservedWords accessors := by
        unfold Avoids
        decide
      rw [Shape.text]
      exact typed.avoids.append_cons (by decide) hblock
  | method params =>
      have hlist : Avoids reservedWords (join [',', ' '] (params.map Typed.text)) := by
        refine Avoids.join empty_not_mem_reservedWords (forall_chars (by decide)) ?_
        intro item hitem
        obtain ⟨param, _, rfl⟩ := List.mem_map.mp hitem
        exact param.avoids
      have hblock : Avoids reservedWords (' ' :: block) := by
        unfold Avoids
        decide
      rw [Shape.text]
      exact typed.avoids.append_cons (by decide) (hlist.append_cons (by decide) hblock)

/-- What stands outside of the brackets of type and name, and some further brackets. -/
def typedOr (others : List Char) (c : Char) : Bool := isTypedChar c || others.contains c

/-- A typed name holds no more than it may if other characters are allowed too. -/
theorem balanced_typed (others : List Char) :
    Balanced .all (fun c => typedOr others c = true) typed.text := by
  refine typed.balanced.mono ?_
  intro c hc
  rw [typedOr, hc, Bool.true_or]

/-- A parameter list closes every bracket that it opens. -/
theorem balanced_params :
    Balanced .all (fun _ => True) (join [',', ' '] (params.map Typed.text)) := by
  refine Balanced.join ?_ (.of_ordinary (forall_chars (by decide)))
  intro item hitem
  obtain ⟨param, _, rfl⟩ := List.mem_map.mp hitem
  exact param.balanced.inside

theorem balanced_words : Balanced .all (fun _ => True) words :=
  .of_ordinary (forall_chars (by decide))

/-- A property holds the characters of a typed name and braces. -/
theorem balanced_property :
    Balanced .all (fun c => typedOr ['\x7b', '\x7d'] c = true) (typed.text ++ property.text) :=
  (balanced_typed typed _).append (.char (by decide) (by decide)
    (.grouped rfl (by decide) (by decide) (by decide) balanced_words))

/-- A method up to its body. -/
theorem balanced_call : Balanced .all (fun c => typedOr ['(', ')'] c = true)
    (typed.text ++ '(' :: (join [',', ' '] (params.map Typed.text) ++ [')', ' '])) :=
  (balanced_typed typed _).append (.group rfl (by decide) (by decide) (by decide)
    (balanced_params params) (.of_ordinary (forall_chars (by decide))))

/-- A method holds the characters of a typed name, parentheses and braces. -/
theorem balanced_method : Balanced .all (fun c => typedOr ['(', ')', '\x7b', '\x7d'] c = true)
    (typed.text ++ (method params).text) := by
  have hinner : Balanced .all (fun _ => True) [' '] := .of_ordinary (forall_chars (by decide))
  exact (balanced_typed typed _).append (.group rfl (by decide) (by decide) (by decide)
    (balanced_params params) (.char (by decide) (by decide)
      (.grouped rfl (by decide) (by decide) (by decide) hinner)))

end Shape

/-- A statement in its normal form: neither attributes nor modifiers, single spaces. -/
theorem normal_statement (member : Member) {lead : Text} (hlead : ∀ c ∈ lead, isBlank c = true) :
    dropModifiers (dropAttributes (lead ++ member.text)).collapse =
      member.typed.text ++ member.shape.text := by
  have htidy := Shape.tidy member.typed member.shape
  have hstarts : StartsIdent (member.typed.text ++ member.shape.text) :=
    member.typed.starts.append _
  have hdrop : dropAttributes (lead ++ (member.text ++ [])) = member.text :=
    dropAttributes_padded (tidy_modsText member.mods htidy) (starts_modsText member.mods hstarts)
      hlead (by simp)
  rw [List.append_nil] at hdrop
  rw [hdrop, Member.text, (tidy_modsText member.mods htidy).collapse]
  exact dropModifiers_modsText member.mods htidy.ne_nil
    ((Shape.avoids member.typed member.shape).mono modifiers_subset)

/-- A statement of free words is sorted by the sign that comes first. -/
theorem statementFacts_normal (owner : String) {statement text : Text}
    (htext : dropModifiers (dropAttributes statement).collapse = text)
    (h : Avoids reservedWords text) (hstarts : StartsIdent text) :
    statementFacts owner statement =
      let paren := topLevel? ['('] text
      let assign := topLevel? ['='] text
      let arrow := topLevel? ['=', '>'] text
      let brace := topLevel? ['\x7b'] text
      if comesFirst paren [assign, arrow, brace] then callableFacts owner text (paren.getD 0)
      else if comesFirst brace [assign, arrow] then headFacts owner (text.take (brace.getD 0))
      else if comesFirst arrow [assign] then headFacts owner (text.take (arrow.getD 0))
      else declaratorFacts owner text := by
  have hpassed := isPassedOver_eq_false h hstarts
  have hlead : text.head? ≠ some '(' := by
    obtain ⟨c, rest, rfl, hc⟩ := hstarts
    simpa using ne_of_identChar hc (by decide)
  unfold statementFacts
  simp only [htext, hpassed, if_neg hlead]

/-- What stands before the braces of a property tells what a field would. -/
theorem headFacts_declared (owner : String) (mods : List Modifier) (typed : Typed) {trail : Text}
    (htrail : ∀ c ∈ trail, isBlank c = true) :
    headFacts owner (Member.modsText mods ++ (typed.text ++ trail)) =
      fieldFacts owner typed.name.chars typed.type.text := by
  unfold headFacts
  rw [typeAndName?_declared mods typed htrail]

/-- The facts of a field are those of a member that is one. -/
theorem fieldFacts_eq (owner : String) (typed : Typed) :
    fieldFacts owner typed.name.chars typed.type.text =
      (ClassMember.field ⟨typed.name.name, String.ofList typed.type.text⟩
        ([typed.type].flatMap fun type => Dialect.cSharp.usedNames type.text)).features.map
          (Feature.toFact owner) := by
  rw [fieldFacts, ofField_eq_map_toFact, List.flatMap_singleton]
  rfl

/-- The statement of a field. -/
theorem declaratorFacts_typed (owner : String) (typed : Typed) :
    declaratorFacts owner typed.text = fieldFacts owner typed.name.chars typed.type.text := by
  have hsplit : splitTop (join [',', ' '] [typed.text]) = [typed.text] := by
    refine splitTop_commas (show isTypedChar ',' = false by decide) ?_
    intro item hitem
    rw [List.mem_singleton.mp hitem]
    exact ⟨typed.balanced, typed.tidy⟩
  rw [join, List.intercalate_singleton] at hsplit
  unfold declaratorFacts
  rw [hsplit]
  simp only [beforeAssignment_balanced typed.balanced, typeAndName?_typed, List.flatMap_nil,
    List.append_nil]

/-- The statement of a method that is not called like its owner. -/
theorem callableFacts_typed {owner : String} {typed : Typed} (hname : typed.name.name ≠ owner)
    (params : List Typed) :
    callableFacts owner (typed.text ++ (Shape.method params).text) typed.text.length =
      methodFacts owner typed.name.chars typed.type.text
        (params.map fun param => param.type.text) := by
  have hhead : strip ((typed.text ++ (Shape.method params).text).take typed.text.length) =
      typed.text := by
    rw [List.take_left, typed.tidy.strip]
  have hgroup : splitGroup ((typed.text ++ (Shape.method params).text).drop typed.text.length) =
      (join [',', ' '] (params.map Typed.text), some (' ' :: Shape.block)) := by
    rw [List.drop_left]
    exact splitGroup_balanced (Shape.balanced_params params) rfl _
  unfold callableFacts
  simp only [hhead, hgroup, typeAndName?_typed, parameterTypes_join]
  exact congrArg (methodFacts owner _ · _) (if_neg hname)

section Shapes

variable {owner : String} {statement : Text} {typed : Typed}

/-- A field is told as one. -/
theorem statementFacts_field
    (h : dropModifiers (dropAttributes statement).collapse = typed.text ++ Shape.field.text) :
    statementFacts owner statement = fieldFacts owner typed.name.chars typed.type.text := by
  rw [Shape.text, List.append_nil] at h
  rw [statementFacts_normal owner h typed.avoids typed.starts]
  simp only [
    topLevel?_balanced typed.balanced (passes_class (show isTypedChar '(' = false by decide)),
    topLevel?_balanced typed.balanced (passes_class (show isTypedChar '=' = false by decide)),
    topLevel?_balanced typed.balanced (passes_class (show isTypedChar '\x7b' = false by decide))]
  exact declaratorFacts_typed owner typed

/-- A property is told as a field of its type. -/
theorem statementFacts_property
    (h : dropModifiers (dropAttributes statement).collapse = typed.text ++ Shape.property.text) :
    statementFacts owner statement = fieldFacts owner typed.name.chars typed.type.text := by
  have hall := Shape.balanced_property typed
  have hbrace : topLevel? ['\x7b'] (typed.text ++ Shape.property.text) =
      some (typed.text ++ [' ']).length := by
    have hfront : Balanced .all (fun c => isTypedChar c = true) (typed.text ++ [' ']) :=
      typed.balanced.append (.of_ordinary (forall_chars (by decide)))
    have hfound := topLevel?_append hfront
      (passes_class (show isTypedChar '\x7b' = false by decide))
      (show standsAt ['\x7b'] _ ('\x7b' :: Shape.accessors.tail) = true from rfl)
    rwa [List.append_assoc] at hfound
  -- the head is cut before the brace and keeps the space
  have htake : (typed.text ++ Shape.property.text).take (typed.text ++ [' ']).length =
      typed.text ++ [' '] := by
    have hleft : ((typed.text ++ [' ']) ++ Shape.accessors).take (typed.text ++ [' ']).length =
        typed.text ++ [' '] := List.take_left
    rwa [List.append_assoc] at hleft
  rw [statementFacts_normal owner h (Shape.avoids typed .property) (typed.starts.append _)]
  simp only [topLevel?_balanced hall (passes_class
      (show Shape.typedOr ['\x7b', '\x7d'] '(' = false by decide)),
    topLevel?_balanced hall (passes_class
      (show Shape.typedOr ['\x7b', '\x7d'] '=' = false by decide)), hbrace, Option.getD_some, htake]
  exact headFacts_declared owner [] typed (forall_chars (by decide))

/-- A method is told with its result and its parameters' types, unless it is a constructor. -/
theorem statementFacts_method (hname : typed.name.name ≠ owner) {params : List Typed}
    (h : dropModifiers (dropAttributes statement).collapse =
      typed.text ++ (Shape.method params).text) :
    statementFacts owner statement = methodFacts owner typed.name.chars typed.type.text
      (params.map fun param => param.type.text) := by
  have hall := Shape.balanced_method typed params
  have hparen : topLevel? ['('] (typed.text ++ (Shape.method params).text) =
      some typed.text.length :=
    topLevel?_append typed.balanced (passes_class (show isTypedChar '(' = false by decide)) rfl
  -- the braces of a method's body stand behind its parameter list
  obtain ⟨place, hbrace, hlater⟩ : ∃ place,
      topLevel? ['\x7b'] (typed.text ++ (Shape.method params).text) = some place ∧
        typed.text.length < place := by
    have hsplit : typed.text ++ (Shape.method params).text =
        (typed.text ++ '(' :: (join [',', ' '] (params.map Typed.text) ++ [')', ' '])) ++
          '\x7b' :: Shape.block.tail := by
      simp [Shape.text, Shape.block_eq]
    rw [hsplit, topLevel?_append (Shape.balanced_call typed params)
      (passes_class (show Shape.typedOr ['(', ')'] '\x7b' = false by decide)) rfl]
    exact ⟨_, rfl, by simp⟩
  rw [statementFacts_normal owner h (Shape.avoids typed (.method params)) (typed.starts.append _)]
  simp only [hparen, hbrace, topLevel?_balanced hall (passes_class
    (show Shape.typedOr ['(', ')', '\x7b', '\x7d'] '=' = false by decide)), comesFirst,
    Option.getD_some]
  rw [if_pos (by simpa using hlater)]
  exact callableFacts_typed hname params

end Shapes

/-- A statement that is a member tells exactly that member. -/
theorem statementFacts_member {owner : String} {member : Member}
    (hname : member.typed.name.name ≠ owner) {lead : Text} (hlead : ∀ c ∈ lead, isBlank c = true) :
    statementFacts owner (lead ++ member.text) =
      member.toClassMember.features.map (Feature.toFact owner) := by
  have hnormal := normal_statement member hlead
  obtain ⟨mods, typed, shape⟩ := member
  cases shape with
  | field =>
      rw [statementFacts_field hnormal]
      exact fieldFacts_eq owner typed
  | property =>
      rw [statementFacts_property hnormal]
      exact fieldFacts_eq owner typed
  | method params =>
      rw [statementFacts_method hname hnormal]
      rw [methodFacts, ofMethod_eq_map_toFact]
      simp only [Member.toClassMember, Member.types, List.map_map, List.flatMap_append,
        List.flatMap_map, List.flatMap_singleton]
      rfl

end CSharp

end ClassDiagram
