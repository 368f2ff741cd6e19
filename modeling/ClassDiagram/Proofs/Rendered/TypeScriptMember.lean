import ClassDiagram.Proofs.Model.Declared
import ClassDiagram.Proofs.Rendered.TypeScriptType

/-!
# Written members of TypeScript classes

The members of a class as they are written: a field with its annotation, and a method with
annotated parameters, a return type and an empty body. This file says how a unit that is a written
member is read.

* `parameterTypes_join`: the types of a written parameter list.
* `returnType_written`: the return type of a written method.
* `unitFacts_member`: a unit that is a member tells exactly that member.
-/

namespace ClassDiagram

namespace TypeScript

open Text

/-- A member: a field, or a method with its parameters and its return type. -/
inductive Member where
  | field (name : Ident reservedWords) (type : TypeTerm)
  | method (name : Ident reservedWords) (params : List (Ident reservedWords × TypeTerm))
      (result : TypeTerm)

/-- Parameters as they are written. -/
def paramList (params : List (Ident reservedWords × TypeTerm)) : Text :=
  join [',', ' '] (params.map fun param => annotated param.1 param.2.text)

namespace Member

/-- The name of a member. -/
def name : Member → Ident reservedWords
  | field name _ | method name _ _ => name

/-- What stands behind the name of a member. -/
def behind : Member → Text
  | field _ type => ':' :: ' ' :: type.text
  | method _ params result =>
    '(' :: (paramList params ++ ')' :: ':' :: ' ' :: (result.text ++ [' ', '\x7b', ' ', '\x7d']))

/-- A member as it is written, without what ends its line. -/
def text (member : Member) : Text := member.name.chars ++ member.behind

/-- The types that a member names, in the order in which they are met. -/
def types : Member → List TypeTerm
  | field _ type => [type]
  | method _ params result => params.map Prod.snd ++ [result]

/-- What a member tells of its class. -/
def toClassMember (member : Member) : ClassMember :=
  let used := member.types.flatMap fun type => Dialect.typeScript.usedNames type.text
  match member with
  | field name type => .field ⟨name.name, String.ofList type.text⟩ used
  | method name params result =>
    .method ⟨name.name, String.ofList result.text,
      params.map fun param => String.ofList param.2.text⟩ used

end Member

/-! ## Annotated names -/

section Annotated

variable (name : Ident reservedWords) (type : TypeTerm)

/-- A name and its type are written one space apart. -/
theorem tidy_annotated : Tidy (annotated name type.text) := by
  have hname : Tidy (name.chars ++ [':']) :=
    name.tidy.append (.word (by decide) (forall_chars (by decide)))
  have hall := hname.spaced type.tidy
  rwa [List.append_assoc] at hall

/-- Neither a name nor its type holds a reserved word. -/
theorem avoids_annotated : Avoids reservedWords (annotated name type.text) :=
  name.avoids.append_cons (by decide) (type.avoids.cons (by decide) (by decide))

/-- What stands outside of the brackets of a name with its annotation. -/
def isAnnotatedChar (c : Char) : Bool := TypeTerm.isTypeChar c || c == ':'

/-- A type holds no more than a typed name may. -/
theorem balanced_type : Balanced .all (fun c => isAnnotatedChar c = true) type.text := by
  refine type.balanced.mono ?_
  intro c hc
  rw [isAnnotatedChar, hc, Bool.true_or]

/-- A typed name closes every bracket that it opens. -/
theorem balanced_annotated :
    Balanced .all (fun c => isAnnotatedChar c = true) (annotated name type.text) := by
  refine (name.balanced ?_).append
    (.char (by decide) (by decide) (.char (by decide) (by decide) (balanced_type type)))
  intro c hc
  rw [isAnnotatedChar, TypeTerm.isTypeChar, hc, Bool.true_or, Bool.true_or]

/-- The colon is found behind the name. -/
theorem topLevel?_colon_annotated :
    topLevel? [':'] (annotated name type.text) = some name.chars.length := by
  have hname : Balanced .all (fun c => isIdentChar c = true) name.chars :=
    name.balanced fun _ hc => hc
  exact topLevel?_append hname (passes_class (by decide)) rfl

end Annotated

/-! ## Words at the front -/

/-- Without a sign for decorators at its front a text stays as it is. -/
theorem dropDecorators_of_head {text : Text} (h : Tidy text) (hat : text.head? ≠ some '@') :
    dropDecorators text = text := by
  rw [dropDecorators]
  split
  · rename_i heq
    rw [h.strip] at heq
    rw [heq] at hat
    exact absurd rfl hat
  · exact h.strip

/-- A member has no decorators to drop. -/
theorem dropDecorators_tidy {text : Text} (h : Tidy text) (hstarts : StartsIdent text) :
    dropDecorators text = text := by
  refine dropDecorators_of_head h ?_
  obtain ⟨c, rest, rfl, hc⟩ := hstarts
  simpa using ne_of_identChar hc (by decide)

/-- Without one of the words at its front a text stays as it is. -/
theorem dropLeading_of_not_mem {words : List String} {text : Text}
    (h : String.ofList (spanWord text).1 ∉ words) : dropLeading words text = text := by
  have hnone : words.contains (String.ofList (spanWord text).1) = false := by simpa using h
  rw [dropLeading, if_neg (by rw [hnone]; exact Bool.false_ne_true)]

/-- A name is no modifier. -/
theorem dropLeading_name (name : Ident reservedWords) {words : List String}
    (hwords : words ⊆ reservedWords) {c : Char} (hc : isWordChar c = false) (rest : Text) :
    dropLeading words (name.chars ++ c :: rest) = name.chars ++ c :: rest := by
  refine dropLeading_of_not_mem ?_
  rw [name.spanWord_append hc]
  exact fun hmem => name.isFree (hwords hmem)

/-! ## Parameters -/

/-- A name is written without marks or quotes. -/
theorem plainName_ident (name : Ident reservedWords) : plainName name.chars = name.chars := by
  have hlast : (name.chars.reverse.dropWhile (· == '?')).reverse = name.chars := by
    cases hrev : name.chars.reverse with
    | nil => simpa using hrev.symm
    | cons c rest =>
        have hmem : c ∈ name.chars := by
          rw [← List.mem_reverse, hrev]
          exact List.mem_cons_self
        have hc : c ≠ '?' := ne_of_identChar (name.identChar c hmem) (by decide)
        rw [List.dropWhile_cons_of_neg (by simpa using hc), ← hrev, List.reverse_reverse]
  rw [plainName, name.tidy.strip, hlast, name.tidy.strip]

/-- A type that is written is not replaced. -/
theorem orAny_text (type : TypeTerm) : orAny type.text = type.text := by
  rw [orAny, if_neg (by simpa using type.tidy.ne_nil)]

theorem orVoid_text (type : TypeTerm) : orVoid type.text = type.text := by
  rw [orVoid, if_neg (by simpa using type.tidy.ne_nil)]

/-- A written parameter. -/
theorem parameter?_annotated (name : Ident reservedWords) (type : TypeTerm) :
    parameter? (annotated name type.text) = some ⟨name.chars, type.text, false⟩ := by
  have hdrop : dropDecorators (annotated name type.text) = annotated name type.text :=
    dropDecorators_tidy (tidy_annotated name type) (name.starts.append _)
  have hrest : (annotated name type.text).take 3 ≠ ['.', '.', '.'] := by
    obtain ⟨c, tail, hchars, hc⟩ := name.starts
    rw [annotated, hchars, List.cons_append, List.take_succ_cons]
    intro heq
    injection heq with hdot _
    rw [hdot] at hc
    exact absurd hc (by decide)
  -- a reserved word is no name, so that no modifier stands before the name
  have hleading : dropLeading propertyModifiers (annotated name type.text) =
      annotated name type.text :=
    dropLeading_name name (by decide) (by decide) _
  have hassign : beforeAssignment (annotated name type.text) = annotated name type.text :=
    beforeAssignment_balanced (balanced_annotated name type)
  have hname : (annotated name type.text).take name.chars.length = name.chars := List.take_left
  have htype : collapse ((annotated name type.text).drop (name.chars.length + 1)) = type.text := by
    rw [annotated, ← List.drop_drop, List.drop_left]
    exact type.tidy.collapse_space
  have hthis : name.chars ≠ "this".toList := name.chars_ne (by decide)
  unfold parameter?
  simp only [hdrop, if_neg hrest, hleading, bne_self_eq_false, hassign, topLevel?_colon_annotated,
    hname, htype, plainName_ident]
  rw [if_neg hthis, orAny_text]

/-- The parameters of a list are read one by one. -/
theorem parameters_join (params : List (Ident reservedWords × TypeTerm)) :
    parameters (paramList params) =
      params.map fun param => ⟨param.1.chars, param.2.text, false⟩ := by
  have hsplit : splitTop (paramList params) =
      params.map fun param => annotated param.1 param.2.text := by
    refine splitTop_commas (show isAnnotatedChar ',' = false by decide) ?_
    intro item hitem
    obtain ⟨param, _, rfl⟩ := List.mem_map.mp hitem
    exact ⟨balanced_annotated param.1 param.2, tidy_annotated param.1 param.2⟩
  unfold parameters
  rw [hsplit, List.filterMap_map, ← List.filterMap_eq_map]
  refine List.filterMap_congr fun param _ => ?_
  rw [Function.comp_apply, Function.comp_apply, parameter?_annotated]

/-- The types of a written parameter list. -/
theorem parameterTypes_join (params : List (Ident reservedWords × TypeTerm)) :
    parameterTypes (paramList params) = params.map fun param => param.2.text := by
  rw [parameterTypes, parameters_join, List.map_map]
  rfl

/-! ## Return types -/

/-- A type does not begin with a sign that is not among those of types. -/
theorem head?_type_ne (type : TypeTerm) {c : Char} (hc : isIdentChar c = false)
    (hsign : c ∉ TypeTerm.typeSigns) (rest : Text) : (type.text ++ rest).head? ≠ some c := by
  intro hhead
  cases htext : type.text with
  | nil => exact type.tidy.ne_nil htext
  | cons first others =>
      rw [htext, List.cons_append, List.head?_cons, Option.some.injEq] at hhead
      have hmem : c ∈ type.text := by
        rw [htext, hhead]
        exact List.mem_cons_self
      exact type.spelled.not_mem hc hsign hmem

/-- The empty body of a method. -/
theorem tidy_block : Tidy ['\x7b', ' ', '\x7d'] := by
  have hbrace : Tidy ['\x7b'] := .word (by decide) (forall_chars (by decide))
  exact hbrace.spaced (.word (by decide) (forall_chars (by decide)))

/-- The return type of a written method. -/
theorem returnType_written (type : TypeTerm) :
    returnType (':' :: ' ' :: (type.text ++ [' ', '\x7b', ' ', '\x7d'])) = type.text := by
  have hbody : Tidy (type.text ++ ' ' :: ['\x7b', ' ', '\x7d']) := type.tidy.spaced tidy_block
  have hall : Tidy ([':'] ++ ' ' :: (type.text ++ ' ' :: ['\x7b', ' ', '\x7d'])) :=
    .space (by decide) (forall_chars (by decide)) hbody
  have hstrip : strip (':' :: ' ' :: (type.text ++ [' ', '\x7b', ' ', '\x7d'])) =
      ':' :: ' ' :: (type.text ++ [' ', '\x7b', ' ', '\x7d']) := hall.strip
  have hwritten : strip (' ' :: (type.text ++ [' ', '\x7b', ' ', '\x7d'])) =
      type.text ++ [' ', '\x7b', ' ', '\x7d'] := hbody.strip_space
  have hhead : (type.text ++ [' ', '\x7b', ' ', '\x7d']).head? ≠ some '\x7b' :=
    head?_type_ne type (by decide) (by decide) _
  have hsplit : type.text ++ [' ', '\x7b', ' ', '\x7d'] =
      (type.text ++ [' ']) ++ '\x7b' :: [' ', '\x7d'] := by
    rw [List.append_assoc]
    rfl
  -- the body's brace is the first one outside of the type's own brackets
  have hbrace : topLevel? ['\x7b'] (type.text ++ [' ', '\x7b', ' ', '\x7d']) =
      some (type.text ++ [' ']).length := by
    have hfront : Balanced .all (fun c => TypeTerm.isTypeChar c = true) (type.text ++ [' ']) :=
      type.balanced.append (.of_ordinary (forall_chars (by decide)))
    rw [hsplit]
    exact topLevel?_append hfront (passes_class (by decide)) rfl
  have htake : collapse ((type.text ++ [' ', '\x7b', ' ', '\x7d']).take
      (type.text ++ [' ']).length) = type.text := by
    rw [hsplit, List.take_left]
    exact type.tidy.collapse_before (forall_chars (by decide))
  unfold returnType
  rw [hstrip]
  simp only [hwritten, if_neg hhead, hbrace, htake]

/-! ## Units -/

section Units

variable (name : Ident reservedWords)

/-- A name that only begins like the word for a constructor announces none. -/
theorem constructor?_eq_none {c : Char} (hc : isIdentChar c = false) (rest : Text) :
    constructor? (name.chars ++ c :: rest) = none := by
  have hne : name.chars ≠ "constructor".toList := name.chars_ne (by decide)
  have hword : ∀ d ∈ "constructor".toList, isIdentChar d = true := forall_chars (by decide)
  unfold constructor?
  by_cases hfront : "constructor".toList.isPrefixOf (name.chars ++ c :: rest) = true
  · obtain ⟨tail, htail⟩ := List.isPrefixOf_iff_prefix.mp hfront
    rw [if_pos hfront, ← htail, List.drop_left]
    rcases List.append_eq_append_iff.mp htail with ⟨more, hname, hmore⟩ | ⟨more, hname, hmore⟩
    -- the name goes on behind the word, so no parenthesis follows
    · cases more with
      | nil =>
          rw [List.append_nil] at hname
          exact absurd hname hne
      | cons d others =>
          have hd : isIdentChar d = true := name.identChar d (by rw [hname]; simp)
          have hstrip : stripStart tail = tail := by
            rw [hmore, List.cons_append, stripStart, List.dropWhile_cons_of_neg
              (by rw [not_blank_of_identChar hd]; exact Bool.false_ne_true)]
          rw [hstrip, hmore, List.cons_append]
          exact if_neg fun heq => ne_of_identChar hd (by decide) (Option.some.inj heq)
    -- the word goes on behind the name, with what ends the name
    · cases more with
      | nil =>
          rw [List.append_nil] at hname
          exact absurd hname.symm hne
      | cons d others =>
          injection hmore with hcd _
          have hd : isIdentChar d = true := hword d (by rw [hname]; simp)
          rw [← hcd, hc] at hd
          exact absurd hd Bool.false_ne_true
  · rw [if_neg hfront]

/-- A name is no accessor's keyword. -/
theorem accessor?_eq_none {c : Char} (hc : isWordChar c = false) (rest : Text) :
    accessor? (name.chars ++ c :: rest) = none := by
  have hget : String.ofList name.chars ≠ "get" := fun h => name.isFree (by rw [h]; decide)
  have hset : String.ofList name.chars ≠ "set" := fun h => name.isFree (by rw [h]; decide)
  unfold accessor?
  rw [name.spanWord_append hc]
  simp only [hget, hset, or_self, if_false]

/-- A member's name ends where no character of a name follows. -/
theorem memberName?_append {c : Char} (hc : isDollarNameChar c = false) (rest : Text) :
    memberName? (name.chars ++ c :: rest) = some (name.chars, c :: rest) := by
  rw [← name.dollarName?_append hc]
  obtain ⟨first, others, hchars, hfirst⟩ := name.starts
  rw [hchars, List.cons_append]
  unfold memberName?
  split
  · rename_i heq
    injection heq with hmark _
    rw [hmark] at hfirst
    exact absurd hfirst (by decide)
  · rfl

/-- A unit that begins with a name is not passed over. -/
theorem isPassedOver_eq_false (rest : Text) : isPassedOver (name.chars ++ rest) = false := by
  obtain ⟨first, others, hchars, hfirst⟩ := name.starts
  have hne : ∀ d, isIdentChar d = false → (first == d) = false := fun d hd =>
    beq_eq_false_iff_ne.mpr (ne_of_identChar hfirst hd)
  rw [hchars, List.cons_append, isPassedOver, hne '[' (by decide), hne '(' (by decide),
    hne '\x7d' (by decide), hne '\x7b' (by decide), hne '<' (by decide)]
  rfl

/-- Another character is not dropped as a sign. -/
theorem dropSign_of_other {signs : List Char} {c : Char} (hblank : isBlank c = false)
    (hc : c ∉ signs) (rest : Text) : dropSign signs (c :: rest) = c :: rest := by
  have hstrip : stripStart (c :: rest) = c :: rest := by
    rw [stripStart, List.dropWhile_cons_of_neg (by rw [hblank]; exact Bool.false_ne_true)]
  unfold dropSign
  rw [hstrip]
  show (if signs.contains c = true then stripStart rest else c :: rest) = c :: rest
  rw [if_neg (by simpa using hc)]

/-- What an annotated name behind its colon tells. -/
theorem valueFacts_annotated (owner : String) (type : TypeTerm) :
    valueFacts owner name.chars (':' :: ' ' :: type.text) =
      fieldFacts owner name.chars type.text := by
  have hall : Tidy ([':'] ++ ' ' :: type.text) :=
    .space (by decide) (forall_chars (by decide)) type.tidy
  have hstrip : strip (':' :: ' ' :: type.text) = ':' :: ' ' :: type.text := hall.strip
  have hspaced : Balanced .all (fun c => TypeTerm.isTypeChar c = true) (' ' :: type.text) :=
    .char (by decide) (by decide) type.balanced
  unfold valueFacts
  rw [hstrip]
  simp only [beforeAssignment_balanced hspaced, type.tidy.collapse_space]
  rw [if_neg (by simpa using type.tidy.ne_nil)]

/-- A parameter list closes every bracket that it opens. -/
theorem balanced_paramList (params : List (Ident reservedWords × TypeTerm)) :
    Balanced .all (fun _ => True) (paramList params) := by
  refine Balanced.join ?_ (.of_ordinary (forall_chars (by decide)))
  intro item hitem
  obtain ⟨param, _, rfl⟩ := List.mem_map.mp hitem
  exact (balanced_annotated param.1 param.2).inside

/-- What parameters in parentheses and what stands behind them tell. -/
theorem callableFacts_group (owner : String) {inner : Text}
    (hinner : Balanced .all (fun _ => True) inner) (behind : Text) :
    callableFacts owner name.chars ('(' :: (inner ++ ')' :: behind)) =
      methodFacts owner name.chars (orVoid (returnType behind)) (parameterTypes inner) := by
  have hangle : ('(' :: (inner ++ ')' :: behind)).head? ≠ some '<' := by simp
  have hparen : ('(' :: (inner ++ ')' :: behind)).head? = some '(' := rfl
  have hclosing : closing? ('(' :: (inner ++ ')' :: behind)) = some (inner.length + 1) :=
    closing?_balanced hinner rfl behind
  have hparams : (('(' :: (inner ++ ')' :: behind)).take (inner.length + 1)).drop 1 = inner := by
    simp
  have hbehind : ('(' :: (inner ++ ')' :: behind)).drop (inner.length + 1 + 1) = behind := by
    simp
  unfold callableFacts
  simp only [if_neg hangle, if_pos hparen, hclosing, hparams, hbehind]

end Units

/-! ## Members -/

/-- A member is tidy. -/
theorem tidy_member (member : Member) : Tidy member.text := by
  cases member with
  | field name type => exact tidy_annotated name type
  | method name params result =>
      have hparams : Tidy ('(' :: (paramList params ++ [')'])) := by
        refine Tidy.listed (by decide) (by decide) ?_
        intro item hitem
        obtain ⟨param, _, rfl⟩ := List.mem_map.mp hitem
        exact tidy_annotated param.1 param.2
      have hcolon : Tidy [':'] := .word (by decide) (forall_chars (by decide))
      have hall := ((name.tidy.append hparams).append hcolon).spaced
        (result.tidy.spaced tidy_block)
      simpa [Member.text, Member.behind, Member.name] using hall

/-- A unit that starts with a name is a method or a field. -/
theorem unitFacts_name (owner : String) (name : Ident reservedWords) {c : Char}
    (hc : c = ':' ∨ c = '(') {rest : Text} (htidy : Tidy (name.chars ++ c :: rest)) :
    unitFacts owner (name.chars ++ c :: rest) =
      if c = '(' then callableFacts owner name.chars (c :: rest)
      else valueFacts owner name.chars (c :: rest) := by
  obtain ⟨hident, hword, hdollar, hblank, hquestion, hsign⟩ : isIdentChar c = false ∧
      isWordChar c = false ∧ isDollarNameChar c = false ∧ isBlank c = false ∧ c ∉ ['?'] ∧
      c ∉ ['?', '!'] := by
    rcases hc with rfl | rfl <;> decide
  have hnew : name.chars ≠ "new".toList := name.chars_ne (by decide)
  -- of the heads, only that of a method asks for the parenthesis
  have hmethod : methodHead? (name.chars ++ c :: rest) =
      if c = '(' then some (name.chars, c :: rest) else none := by
    unfold methodHead?
    rw [memberName?_append name hdollar]
    simp only [dropSign_of_other hblank hquestion]
    rcases hc with rfl | rfl
    · rw [if_neg (by simp), if_neg (by decide)]
    · rw [if_pos (by simp), if_pos rfl]
  unfold unitFacts
  rw [htidy.collapse, dropDecorators_tidy htidy (name.starts.append _),
    dropLeading_name name (by decide) hword]
  simp only [isPassedOver_eq_false, constructor?_eq_none name hident,
    accessor?_eq_none name hword, hmethod, Bool.false_eq_true, if_false]
  rcases hc with rfl | rfl
  · have hfield : fieldHead? (name.chars ++ ':' :: rest) = some (name.chars, ':' :: rest) := by
      unfold fieldHead?
      rw [memberName?_append name hdollar]
      simp only [dropSign_of_other hblank hsign]
      rw [if_pos (by simp)]
    simp only [show ':' ≠ '(' by decide, if_false, hfield]
  · simp only [if_true, hnew, if_false]

/-- A unit that is a member tells exactly that member. -/
theorem unitFacts_member (owner : String) (member : Member) :
    unitFacts owner member.text =
      member.toClassMember.features.map (Feature.toFact owner) := by
  have htidy := tidy_member member
  cases member with
  | field name type =>
      have hfacts : unitFacts owner (name.chars ++ ':' :: ' ' :: type.text) =
          valueFacts owner name.chars (':' :: ' ' :: type.text) :=
        (unitFacts_name owner name (Or.inl rfl) htidy).trans (if_neg (by decide))
      refine hfacts.trans ?_
      rw [valueFacts_annotated, fieldFacts, ofField_eq_map_toFact, Member.toClassMember,
        Member.types, List.flatMap_singleton]
      rfl
  | method name params result =>
      have hfacts : unitFacts owner (Member.method name params result).text =
          callableFacts owner name.chars (Member.method name params result).behind :=
        (unitFacts_name owner name (Or.inr rfl) htidy).trans (if_pos rfl)
      rw [hfacts, Member.behind, callableFacts_group name owner (balanced_paramList params),
        returnType_written, orVoid_text, parameterTypes_join]
      rw [methodFacts, ofMethod_eq_map_toFact]
      simp only [Member.toClassMember, Member.types, List.map_map, List.flatMap_append,
        List.flatMap_map, List.flatMap_singleton]
      rfl

end TypeScript

end ClassDiagram
