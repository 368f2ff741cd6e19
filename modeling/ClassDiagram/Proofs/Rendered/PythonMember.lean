import ClassDiagram.Proofs.Model.Declared
import ClassDiagram.Proofs.Rendered.PythonHint
import ClassDiagram.Proofs.Rendered.PythonLine

/-!
# Written members of Python classes

The members of a class as they are written: an annotated field, a method whose body does nothing,
and a constructor that assigns parameters and numbers to attributes of the receiver.

* `headerParts_call`: the parts of a written header.
* `parameters_join`: the parameters of a written parameter list.
* `bodyStatementFacts_field`, `constructorStatementFacts_assignment`: the fields that statements
  tell.
-/

namespace ClassDiagram

namespace Python

open Text

/-- The words that are no names of parameters. -/
def paramWords : List String := keywords ++ ["self", "cls"]

/-- The words that are no names of methods. -/
def methodWords : List String := keywords ++ ["__init__"]

/-- A name and the hint behind it. -/
def annotated {reserved : List String} (name : Ident reserved) (type : TypeTerm) : Text :=
  name.chars ++ ':' :: ' ' :: TypeTerm.written type

/-- A parameter: its name and its hint. -/
abbrev Param := Ident paramWords × TypeTerm

/-- The name of the receiver. -/
def receiver : Text := "self".toList

/-- The receiver and parameters as they are written. -/
def paramList (params : List Param) : Text :=
  join [',', ' '] (receiver :: params.map fun param => annotated param.1 param.2)

/-- A whole number as it is written: a digit, then digits, letters and underscores. -/
structure Numeral where
  chars : Text
  isNumeral : (chars.head?.any Char.isDigit && chars.all isIdentChar) = true := by decide

/-- An assignment to an attribute of the receiver, in a constructor with some number of
parameters. -/
inductive Assignment (count : Nat) where
  | parameter (field : Ident keywords) (place : Fin count)
  | number (field : Ident keywords) (value : Numeral)
  | typed (field : Ident keywords) (type : TypeTerm) (value : Numeral)

/-- A constructor: its parameters, which have names of their own, and what it assigns. -/
structure Initializer where
  params : List Param
  assignments : List (Assignment params.length)
  distinct : (params.map fun param => param.1.chars).Nodup := by decide

/-- A member of a class. -/
inductive Member where
  | field (name : Ident keywords) (type : TypeTerm)
  | method (name : Ident methodWords) (params : List Param) (result : TypeTerm)
  | initializer (init : Initializer)

namespace Assignment

variable {params : List Param}

/-- The attribute that gets a value. -/
def field {count : Nat} : Assignment count → Ident keywords
  | parameter field _ | number field _ | typed field _ _ => field

/-- What stands between the attribute and the equals sign. -/
def hint {count : Nat} : Assignment count → Text
  | parameter _ _ | number _ _ => []
  | typed _ type _ => ':' :: ' ' :: TypeTerm.written type

/-- The value that is assigned. -/
def value : Assignment params.length → Text
  | parameter _ place => (params.get place).1.chars
  | number _ value | typed _ _ value => value.chars

/-- The type of the field: its own, that of the parameter, or any. -/
def type : Assignment params.length → Text
  | parameter _ place => TypeTerm.written (params.get place).2
  | number _ _ => "any".toList
  | typed _ type _ => TypeTerm.written type

/-- The front of an attribute of the receiver. -/
def receiverDot : Text := "self.".toList

/-- What is assigned to. -/
def target {count : Nat} (assignment : Assignment count) : Text :=
  receiverDot ++ (assignment.field.chars ++ assignment.hint)

/-- An assignment as it is written. -/
def text (assignment : Assignment params.length) : Text :=
  (assignment.target ++ [' ']) ++ '=' :: ' ' :: assignment.value

end Assignment

/-- The names and the types of parameters, as a header gives them. -/
def hinted (params : List Param) : List (Text × Text) :=
  params.map fun param => (param.1.chars, TypeTerm.written param.2)

/-- The word before a function, and a space. -/
def defWord : Text := "def ".toList

/-- A function header as it is written. -/
def functionLine {reserved : List String} (name : Ident reserved) (params : List Param)
    (result : Text) : Text :=
  defWord ++ (name.chars ++ '(' :: (paramList params ++ ')' :: (result ++ [':'])))

/-- The name of a constructor. -/
def initName : Ident [] := { chars := "__init__".toList }

/-- A body that does nothing. -/
def passLine : Text := "pass".toList

/-- A return type as it is written. -/
def arrow (result : TypeTerm) : Text := ' ' :: '-' :: '>' :: ' ' :: TypeTerm.written result

/-- The lines of a member: its own in the body of the class, and those of its own body. -/
def Member.lines : Member → List LogicalLine
  | .field name type => [⟨4, annotated name type⟩]
  | .method name params result => [⟨4, functionLine name params (arrow result)⟩, ⟨8, passLine⟩]
  | .initializer init => ⟨4, functionLine initName init.params []⟩ ::
      init.assignments.map fun assignment => ⟨8, assignment.text⟩

/-- The names that some hints use. -/
def usedBy (types : List TypeTerm) : List String :=
  types.flatMap fun type => Dialect.python.usedNames (TypeTerm.written type)

/-- What a member tells of its class: a field, a method, or the fields of a constructor. -/
def Member.toClassMembers : Member → List ClassMember
  | .field name type => [.field ⟨name.name, String.ofList (TypeTerm.written type)⟩ (usedBy [type])]
  | .method name params result =>
    [.method ⟨name.name, String.ofList (TypeTerm.written result),
      params.map fun param => String.ofList (TypeTerm.written param.2)⟩
        (usedBy (params.map Prod.snd ++ [result]))]
  | .initializer init => .initializer (usedBy (init.params.map Prod.snd)) ::
      init.assignments.map fun assignment =>
        .field ⟨assignment.field.name, String.ofList assignment.type⟩
          (Dialect.python.usedNames assignment.type)

/-! ## Annotated names -/

section Annotated

variable {reserved : List String} (name : Ident reserved) (type : TypeTerm)

/-- What stands outside of the brackets of a name with its hint. -/
def isAnnotatedChar (c : Char) : Bool := Hint.isTypeChar c || c == ':'

theorem isAnnotatedChar_of_identChar {c : Char} (h : isIdentChar c = true) :
    isAnnotatedChar c = true := by
  rw [isAnnotatedChar, Hint.isTypeChar, h, Bool.true_or, Bool.true_or]

/-- A hint closes every bracket that it opens. -/
theorem balanced_hint :
    Balanced lineBrackets (fun c => isAnnotatedChar c = true)
      (':' :: ' ' :: TypeTerm.written type) := by
  refine .char (by decide) (by decide) (.char (by decide) (by decide) ?_)
  refine (TypeTerm.balanced type).mono ?_
  intro c hc
  rw [isAnnotatedChar, hc, Bool.true_or]

/-- A name with its hint closes every bracket that it opens. -/
theorem balanced_annotated :
    Balanced lineBrackets (fun c => isAnnotatedChar c = true) (annotated name type) :=
  (name.balanced fun _ => isAnnotatedChar_of_identChar).append (balanced_hint type)

/-- A name and its hint are written one space apart. -/
theorem tidy_annotated : Tidy (annotated name type) := by
  have hname : Tidy (name.chars ++ [':']) :=
    name.tidy.append (.word (by decide) (forall_chars (by decide)))
  have hall := hname.spaced (TypeTerm.tidy type)
  rwa [List.append_assoc] at hall

/-- A name with its hint is spelled with the signs of types and a colon. -/
theorem spelled_annotated : Spelled isIdentChar (':' :: TypeTerm.signs) (annotated name type) :=
  name.spelled.append (.cons (by decide) (.cons (by decide)
    ((TypeTerm.spelled type).mono (List.subset_cons_self _ _))))

/-- The hint behind a colon. -/
theorem typeBehind?_hint :
    typeBehind? (':' :: ' ' :: TypeTerm.written type) = some (TypeTerm.written type) := by
  have hcolon : stripStart (':' :: ' ' :: TypeTerm.written type) =
      ':' :: ' ' :: TypeTerm.written type := rfl
  have htype : stripStart (' ' :: TypeTerm.written type) = TypeTerm.written type :=
    (TypeTerm.tidy type).stripStart
  unfold typeBehind?
  rw [hcolon]
  simp only [htype]
  rw [if_neg (by simpa using (TypeTerm.tidy type).ne_nil)]

end Annotated

/-! ## Parameters -/

/-- The receiver is no parameter. -/
theorem parameter?_receiver : parameter? receiver = none := by decide +kernel

/-- A written parameter. -/
theorem parameter?_annotated (param : Param) :
    parameter? (annotated param.1 param.2) =
      some (param.1.chars, TypeTerm.written param.2) := by
  obtain ⟨name, type⟩ := param
  obtain ⟨first, others, hchars, hfirst⟩ := name.starts
  have hsign : ∀ sign, isIdentChar sign = false → annotated name type ≠ [sign] := by
    intro sign hno heq
    rw [annotated, hchars, List.cons_append] at heq
    injection heq with hhead _
    exact ne_of_identChar hfirst hno hhead
  have hassign : beforeAssignment (annotated name type) = annotated name type :=
    beforeAssignment_balanced (balanced_annotated name type)
  have hcolon : topLevel? [':'] (annotated name type) = some name.chars.length := by
    have hname : Balanced lineBrackets (fun c => isIdentChar c = true) name.chars :=
      name.balanced fun _ hc => hc
    exact topLevel?_append hname (passes_class (by decide)) rfl
  have hname : (annotated name type).take name.chars.length = name.chars := List.take_left
  have htype : collapse ((annotated name type).drop (name.chars.length + 1)) =
      TypeTerm.written type := by
    rw [annotated, ← List.drop_drop, List.drop_left]
    exact (TypeTerm.tidy type).collapse_space
  have hstars : name.chars.dropWhile (· == '*') = name.chars := by
    have hstar : first ≠ '*' := ne_of_identChar hfirst (by decide)
    rw [hchars, List.dropWhile_cons_of_neg (by simpa using hstar)]
  -- the words for receivers are reserved, so that no parameter is one
  have hfree : ¬ (name.chars = "self".toList ∨ name.chars = "cls".toList) := by
    rintro (heq | heq)
    · exact name.chars_ne (by decide) heq
    · exact name.chars_ne (by decide) heq
  unfold parameter?
  rw [if_neg fun h => h.elim (hsign '*' (by decide)) (hsign '/' (by decide))]
  simp only [hassign, hcolon, hname, htype, name.tidy.strip, hstars]
  rw [if_neg hfree, if_neg (by simpa using (TypeTerm.tidy type).ne_nil)]

theorem balanced_receiver :
    Balanced lineBrackets (fun c => isAnnotatedChar c = true) receiver :=
  .of_ordinary (forall_chars (by decide))

theorem tidy_receiver : Tidy receiver := .word (by decide) (forall_chars (by decide))

/-- What every entry of a parameter list is to the scanners. -/
theorem paramList_entry {params : List Param} {item : Text}
    (h : item ∈ receiver :: params.map fun param => annotated param.1 param.2) :
    Balanced lineBrackets (fun c => isAnnotatedChar c = true) item ∧ Tidy item := by
  rcases List.mem_cons.mp h with rfl | h
  · exact ⟨balanced_receiver, tidy_receiver⟩
  · obtain ⟨param, _, rfl⟩ := List.mem_map.mp h
    exact ⟨balanced_annotated param.1 param.2, tidy_annotated param.1 param.2⟩

/-- The parameters of a written parameter list, without the receiver. -/
theorem parameters_join (params : List Param) :
    parameters (paramList params) = hinted params := by
  have hsplit : splitTop (paramList params) (· == ',') false =
      receiver :: params.map fun param => annotated param.1 param.2 :=
    splitTop_commas (show isAnnotatedChar ',' = false by decide) fun _ hitem =>
      paramList_entry hitem
  unfold parameters
  rw [hsplit, List.filterMap_cons, parameter?_receiver, List.filterMap_map, hinted,
    ← List.filterMap_eq_map]
  refine List.filterMap_congr fun param _ => ?_
  rw [Function.comp_apply, Function.comp_apply, parameter?_annotated]

/-- A parameter list closes every bracket that it opens. -/
theorem balanced_paramList (params : List Param) :
    Balanced lineBrackets (fun _ => True) (paramList params) := by
  refine Balanced.join ?_ (.of_ordinary (forall_chars (by decide)))
  exact fun item hitem => (paramList_entry hitem).1.inside

theorem spelled_paramList (params : List Param) :
    Spelled isIdentChar (':' :: TypeTerm.signs) (paramList params) :=
  .join (.of_all (by decide)) (List.forall_mem_cons.mpr
    ⟨.of_all (by decide), List.forall_mem_map.mpr fun param _ => spelled_annotated param.1 param.2⟩)

/-! ## Headers -/

/-- The search for the end of a header passes over a character other than a colon. -/
theorem headerEnd?_cons {c : Char} (hc : c ≠ ':') (depth : Nat) (rest : Text) :
    headerEnd? depth (c :: rest) =
      (headerEnd? (lineBrackets.depthAfter depth false c) rest).map (· + 1) := by
  rw [headerEnd?, if_neg fun h => hc h.2]
  rfl

/-- It passes over a balanced text without colons. -/
theorem headerEnd?_balanced {top : Char → Prop} {text : Text} (h : Balanced lineBrackets top text)
    (hcolon : ':' ∉ text) (depth : Nat) (rest : Text) :
    headerEnd? depth (text ++ rest) = (headerEnd? depth rest).map (· + text.length) := by
  induction h generalizing depth rest with
  | nil => simp
  | @char _ c tail hc _ _ ih =>
      have hno : c ≠ ':' := fun heq => hcolon (heq ▸ List.mem_cons_self)
      rw [List.cons_append, headerEnd?_cons hno, depthAfter_of_ordinary hc,
        ih fun hmem => hcolon (List.mem_cons_of_mem _ hmem)]
      exact map_add_add _ _ _ _ rfl
  | @arrow _ tail _ _ _ ih =>
      rw [List.cons_append, List.cons_append, headerEnd?_cons (by decide),
        headerEnd?_cons (by decide)]
      show ((headerEnd? depth (tail ++ rest)).map (· + 1)).map (· + 1) = _
      rw [ih fun hmem => hcolon (by simp [hmem]), map_add_add _ _ _ _ rfl]
      exact map_add_add _ _ _ _ rfl
  | @group _ opener closer inner tail hpair _ _ _ _ _ ihinner ih =>
      have hin : ':' ∉ inner := fun hmem => hcolon (by simp [hmem])
      have htail : ':' ∉ tail := fun hmem => hcolon (by simp [hmem])
      have hno : opener ≠ ':' ∧ closer ≠ ':' := by
        rcases pair_cases hpair with ⟨rfl, rfl⟩ | ⟨rfl, rfl⟩ | ⟨rfl, rfl⟩ | ⟨rfl, rfl⟩ <;> decide
      obtain ⟨inside, hopen, hclose⟩ := exists_depthAfter hpair lineBrackets depth
      rw [List.cons_append, List.append_assoc, List.cons_append, headerEnd?_cons hno.1, hopen,
        ihinner hin, headerEnd?_cons hno.2, hclose, ih htail, map_add_add _ _ _ _ rfl,
        map_add_add _ _ _ _ rfl]
      refine map_add_add _ _ _ _ ?_
      simp only [List.length_cons, List.length_append]
      omega
  | @quoted _ inner tail _ _ _ _ ihinner ih =>
      -- a quote is a character like any other here
      have hquote : lineBrackets.depthAfter depth false '"' = depth := rfl
      rw [List.cons_append, List.append_assoc, List.cons_append, headerEnd?_cons (by decide),
        hquote, ihinner fun hmem => hcolon (by simp [hmem]), headerEnd?_cons (by decide), hquote,
        ih fun hmem => hcolon (by simp [hmem]), map_add_add _ _ _ _ rfl, map_add_add _ _ _ _ rfl]
      refine map_add_add _ _ _ _ ?_
      simp only [List.length_cons, List.length_append]
      omega

/-- The colon behind a return type ends the header. -/
theorem headerEnd?_arrow (result : TypeTerm) :
    headerEnd? 0 (arrow result ++ [':']) = some (arrow result).length := by
  have hcolon : ':' ∉ TypeTerm.written result :=
    (TypeTerm.spelled result).not_mem (by decide) (by decide)
  unfold arrow
  rw [List.cons_append, List.cons_append, List.cons_append, List.cons_append,
    headerEnd?_cons (by decide), headerEnd?_cons (by decide), headerEnd?_cons (by decide),
    headerEnd?_cons (by decide)]
  show ((((headerEnd? 0 (TypeTerm.written result ++ [':'])).map (· + 1)).map (· + 1)).map
    (· + 1)).map (· + 1) = _
  rw [headerEnd?_balanced (TypeTerm.balanced result) hcolon]
  simp [headerEnd?]

/-- The parts of a written header. -/
theorem headerParts_call {inner result : Text}
    (hinner : Balanced lineBrackets (fun _ => True) inner)
    (hresult : headerEnd? 0 (result ++ [':']) = some result.length) :
    headerParts ('(' :: (inner ++ ')' :: (result ++ [':']))) = ⟨inner, result, []⟩ := by
  have hstrip : strip ('(' :: (inner ++ ')' :: (result ++ [':']))) =
      '(' :: (inner ++ ')' :: (result ++ [':'])) := by
    refine strip_eq_self ?_ ?_
    · intro c hc
      rw [← Option.some.inj hc]
      decide
    · intro c hc
      -- the line ends in its colon
      have hsplit : '(' :: (inner ++ ')' :: (result ++ [':'])) =
          ('(' :: (inner ++ ')' :: result)) ++ [':'] := by simp
      rw [hsplit, List.getLast?_concat] at hc
      rw [← Option.some.inj hc]
      decide
  have htypes : dropTypeParameters ('(' :: (inner ++ ')' :: (result ++ [':']))) =
      '(' :: (inner ++ ')' :: (result ++ [':'])) := by
    rw [dropTypeParameters, if_neg (by simp)]
  have harguments : splitArguments ('(' :: (inner ++ ')' :: (result ++ [':']))) =
      (inner, result ++ [':']) := by
    rw [splitArguments, List.head?_cons, if_pos rfl, splitGroup_balanced hinner rfl]
    rfl
  unfold headerParts
  simp only [hstrip, htypes, harguments, hresult, List.take_left]
  rw [← List.drop_drop, List.drop_left]
  rfl

/-- The name of a function header. -/
theorem functionHeader?_def {reserved : List String} (name : Ident reserved) {c : Char}
    (hc : isWordChar c = false) (rest : Text) :
    functionHeader? (defWord ++ (name.chars ++ c :: rest)) = some (name.chars, c :: rest) := by
  have hspan : spanWord (defWord ++ (name.chars ++ c :: rest)) =
      ("def".toList, ' ' :: (name.chars ++ c :: rest)) := rfl
  have hasync : afterKeyword? "async" (defWord ++ (name.chars ++ c :: rest)) = none := by
    unfold afterKeyword?
    rw [hspan]
    exact if_neg (by decide)
  have hdef : afterKeyword? "def" (defWord ++ (name.chars ++ c :: rest)) =
      some (name.chars ++ c :: rest) := by
    unfold afterKeyword?
    rw [hspan]
    show (if String.ofList "def".toList = "def" then _ else none) = _
    rw [String.ofList_toList, if_pos rfl, afterBlanks?, if_pos (by decide),
      name.tidy.stripStart_append]
  unfold functionHeader?
  simp only [hasync, Option.getD_none, hdef, Option.bind_some]
  exact name.name?_append hc rest

/-- The name of a written function header. -/
theorem functionHeader?_line {reserved : List String} (name : Ident reserved)
    (params : List Param) (result : Text) :
    functionHeader? (functionLine name params result) =
      some (name.chars, '(' :: (paramList params ++ ')' :: (result ++ [':']))) :=
  functionHeader?_def name (by decide) _

/-- A line that starts with another word heads no class. -/
theorem classHeader?_eq_none {line : Text} (h : String.ofList (spanWord line).1 ≠ "class") :
    classHeader? line = none := by
  unfold classHeader? afterKeyword?
  simp only [if_neg h, Option.bind_none]

/-- A line that starts with another word heads no function. -/
theorem functionHeader?_eq_none {line : Text} (hasync : String.ofList (spanWord line).1 ≠ "async")
    (hdef : String.ofList (spanWord line).1 ≠ "def") : functionHeader? line = none := by
  unfold functionHeader? afterKeyword?
  simp only [if_neg hasync, Option.getD_none, if_neg hdef, Option.bind_none]

/-! ## Facts of headers -/

/-- The types use what is used by each of them. -/
theorem usesOf_usedBy (owner : String) (types : List TypeTerm) :
    types.flatMap (fun type => usesOf owner (TypeTerm.written type)) =
      ((usedBy types).map Feature.dependency).map (Feature.toFact owner) := by
  rw [usedBy, List.map_flatMap, List.map_flatMap]
  exact List.flatMap_congr fun type _ => usesOf_eq_map_toFact .python owner _

/-- A written method tells itself. -/
theorem methodFacts_method (owner : String) (name : Ident methodWords) (params : List Param)
    (result : TypeTerm) :
    methodFacts owner name.chars (hinted params) (arrow result) =
      ((Member.method name params result).toClassMembers.flatMap ClassMember.features).map
        (Feature.toFact owner) := by
  have hinit : name.chars ≠ "__init__".toList := name.chars_ne (by decide)
  have hstrip : strip (arrow result) = '-' :: '>' :: ' ' :: TypeTerm.written result := by
    have hsigns : Tidy ['-', '>'] := .word (by decide) (forall_chars (by decide))
    exact (hsigns.spaced (TypeTerm.tidy result)).strip_space
  unfold methodFacts
  simp only [if_neg hinit, hstrip, (TypeTerm.tidy result).strip_space]
  rw [if_neg (by simpa using (TypeTerm.tidy result).ne_nil)]
  have hused : (params.map Prod.snd ++ [result]).flatMap
      (fun type => usesOf owner (TypeTerm.written type)) =
      ((usedBy (params.map Prod.snd ++ [result])).map Feature.dependency).map
        (Feature.toFact owner) := usesOf_usedBy owner _
  simp only [Member.toClassMembers, List.flatMap_cons, List.flatMap_nil, List.append_nil,
    ClassMember.features, ClassMember.feature?, Option.toList_some, ClassMember.used,
    List.map_append, List.map_cons, List.map_nil, ← hused, List.flatMap_append, List.flatMap_map,
    List.map_map, hinted]
  rfl

/-- The header of a constructor tells what its parameters use. -/
theorem methodFacts_init (owner : String) (params : List Param) :
    methodFacts owner initName.chars (hinted params) [] =
      ((usedBy (params.map Prod.snd)).map Feature.dependency).map (Feature.toFact owner) := by
  have hinit : initName.chars = "__init__".toList := rfl
  unfold methodFacts
  simp only [if_pos hinit]
  rw [← usesOf_usedBy, hinted, List.flatMap_map, List.flatMap_map, List.flatMap_map]

/-! ## Fields -/

/-- What a field tells. -/
theorem fieldFacts_eq (owner : String) (name : Ident keywords) (type : Text) :
    fieldFacts owner name.chars type =
      (ClassMember.field ⟨name.name, String.ofList type⟩
        (Dialect.python.usedNames type)).features.map (Feature.toFact owner) := by
  rw [fieldFacts, ofField_eq_map_toFact]
  rfl

/-- An annotated name in the body of a class is a field. -/
theorem bodyStatementFacts_field (owner : String) (name : Ident keywords) (type : TypeTerm) :
    bodyStatementFacts owner (annotated name type) =
      fieldFacts owner name.chars (TypeTerm.written type) := by
  have htarget : strip (beforeAssignment (annotated name type)) = annotated name type := by
    rw [beforeAssignment_balanced (balanced_annotated name type), (tidy_annotated name type).strip]
  have hannotated : annotated? (annotated name type) =
      some (name.chars, TypeTerm.written type) := by
    rw [annotated?, annotated, name.name?_append (by decide), Option.bind_some]
    simp only [typeBehind?_hint, Option.map_some]
  have hkept : keywords.contains (String.ofList name.chars) = false := by
    simpa using name.isFree
  unfold bodyStatementFacts
  simp only [htarget, hannotated, Option.filter_some, hkept]
  exact congrArg (fieldFacts owner name.chars) (TypeTerm.tidy type).collapse

/-! ## Assignments -/

section Assignments

variable {params : List Param} (assignment : Assignment params.length)

/-- What is assigned to closes every bracket that it opens. -/
theorem balanced_target :
    Balanced lineBrackets (fun c => isAnnotatedChar c = true) assignment.target := by
  have hreceiver : Balanced lineBrackets (fun c => isAnnotatedChar c = true)
      Assignment.receiverDot := .of_ordinary (forall_chars (by decide))
  have hfield : Balanced lineBrackets (fun c => isAnnotatedChar c = true)
      assignment.field.chars := assignment.field.balanced fun _ => isAnnotatedChar_of_identChar
  refine hreceiver.append (hfield.append ?_)
  cases assignment with
  | parameter field place => exact .nil
  | number field value => exact .nil
  | typed field type value => exact balanced_hint type

/-- What is assigned to is tidy. -/
theorem tidy_target : Tidy assignment.target := by
  have hreceiver : ∀ c ∈ Assignment.receiverDot, isBlank c = false := forall_chars (by decide)
  refine Tidy.word_append hreceiver ?_
  cases assignment with
  | parameter field place => exact (List.append_nil field.chars).symm ▸ field.tidy
  | number field value => exact (List.append_nil field.chars).symm ▸ field.tidy
  | typed field type value => exact tidy_annotated field type

/-- A number is written with the characters of names. -/
theorem Numeral.identChar (number : Numeral) : ∀ c ∈ number.chars, isIdentChar c = true := by
  have h := number.isNumeral
  simp only [Bool.and_eq_true, List.all_eq_true] at h
  exact h.2

/-- A number is no name. -/
theorem Numeral.ne_ident (number : Numeral) {reserved : List String} (ident : Ident reserved) :
    ident.chars ≠ number.chars := by
  intro heq
  have hident := ident.isIdent
  have hnumeral := number.isNumeral
  rw [heq] at hident
  cases hchars : number.chars with
  | nil =>
      rw [hchars] at hident
      exact absurd hident (by decide)
  | cons c rest =>
      rw [hchars] at hident hnumeral
      simp only [isIdent, Bool.and_eq_true] at hident
      simp only [List.head?_cons, Option.any_some, Bool.and_eq_true] at hnumeral
      have hstart := hident.1
      have hdigit := hnumeral.1
      simp only [isNameStart, Bool.or_eq_true, isAlpha_iff, beq_iff_eq] at hstart
      -- all digits come before the letters, and the underscore is none
      have hle : c.toNat ≤ 57 := (Char.isDigit_iff_toNat.mp hdigit).2
      rcases hstart with hletter | rfl
      · omega
      · exact absurd hdigit (by decide)

theorem Numeral.ne_nil (number : Numeral) : number.chars ≠ [] := by
  intro hnil
  have hnumeral := number.isNumeral
  rw [hnil] at hnumeral
  exact absurd hnumeral (by decide)

/-- A value is written as a name or a number is. -/
theorem identChar_value : ∀ c ∈ assignment.value, isIdentChar c = true := by
  cases assignment with
  | parameter field place => exact (params.get place).1.identChar
  | number field value => exact value.identChar
  | typed field type value => exact value.identChar

/-- A value is one word. -/
theorem tidy_value : Tidy assignment.value := by
  have hne : assignment.value ≠ [] := by
    cases assignment with
    | parameter field place => exact (params.get place).1.ne_nil
    | number field value => exact value.ne_nil
    | typed field type value => exact value.ne_nil
  exact .word hne fun c hc => not_blank_of_identChar (identChar_value assignment c hc)

/-- What is assigned to is spelled with the signs of types and a colon. -/
theorem spelled_target : Spelled isIdentChar (':' :: TypeTerm.signs) assignment.target := by
  refine .append (.of_all (by decide)) ?_
  cases assignment with
  | parameter field place => exact field.spelled.append .nil
  | number field value => exact field.spelled.append .nil
  | typed field type value => exact spelled_annotated field type

/-- The equals sign of an assignment is found behind what is assigned to. -/
theorem topLevel?_assignment :
    topLevel? ['='] assignment.text = some (assignment.target ++ [' ']).length := by
  have hspace : Balanced lineBrackets (fun c => isAnnotatedChar c = true) [' '] :=
    .of_ordinary (forall_chars (by decide))
  refine topLevel?_append ((balanced_target assignment).append hspace) (passes_assignment _) ?_
  rw [List.getLast?_concat]
  rfl

/-- The hint of an assignment, if it has one. -/
def Assignment.type? {count : Nat} : Assignment count → Option Text
  | .parameter _ _ | .number _ _ => none
  | .typed _ type _ => some (TypeTerm.written type)

/-- The attribute that is assigned to, with its hint if it has one. -/
theorem receiverTarget?_target :
    receiverTarget? assignment.target = some (assignment.field.chars, assignment.type?) := by
  have hfront : "self.".toList.isPrefixOf assignment.target = true :=
    List.isPrefixOf_iff_prefix.mpr (List.prefix_append _ _)
  have hdrop : assignment.target.drop 5 = assignment.field.chars ++ assignment.hint := rfl
  unfold receiverTarget?
  rw [if_pos hfront, hdrop]
  cases assignment with
  | parameter field place =>
      show (name? (field.chars ++ [])).bind _ = _
      rw [List.append_nil, field.name?_chars]
      rfl
  | number field value =>
      show (name? (field.chars ++ [])).bind _ = _
      rw [List.append_nil, field.name?_chars]
      rfl
  | typed field type value =>
      show (name? (field.chars ++ ':' :: ' ' :: TypeTerm.written type)).bind _ = _
      rw [field.name?_append (by decide), Option.bind_some]
      simp only [typeBehind?_hint]
      rfl

omit assignment in
/-- A search finds the only item there is to find. -/
theorem find?_of_unique {Item : Type} {items : List Item} {holds : Item → Bool} {item : Item}
    (hmem : item ∈ items) (hitem : holds item = true)
    (hunique : ∀ other ∈ items, holds other = true → other = item) :
    items.find? holds = some item := by
  cases hfound : items.find? holds with
  | none => exact absurd hitem (List.find?_eq_none.mp hfound item hmem)
  | some other =>
      rw [hunique other (List.mem_of_find?_eq_some hfound) (List.find?_some hfound)]

/-- The type of a field: the hint, or else that of the parameter which is assigned. -/
theorem type_of_find? (hdistinct : (params.map fun param => param.1.chars).Nodup) :
    (assignment.type?.or (((hinted params).reverse.find? fun (param, _) =>
      param == assignment.value).map Prod.snd)).getD "any".toList = assignment.type := by
  cases assignment with
  | parameter field place =>
      have hfound : ((hinted params).reverse.find?
          fun (param, _) => param == (params.get place).1.chars) =
          some ((params.get place).1.chars, TypeTerm.written (params.get place).2) := by
        -- the search starts from the end, which makes no difference for distinct names
        refine find?_of_unique ?_ (beq_self_eq_true _) ?_
        · rw [List.mem_reverse]
          exact List.mem_map_of_mem (List.get_mem params place)
        · intro other hother hname
          rw [List.mem_reverse] at hother
          obtain ⟨param, hparam, rfl⟩ := List.mem_map.mp hother
          rw [List.inj_on_of_nodup_map hdistinct hparam (List.get_mem params place)
            (beq_iff_eq.mp hname)]
      show (Option.map Prod.snd ((hinted params).reverse.find? fun (param, _) =>
          param == (params.get place).1.chars)).getD _ = _
      rw [hfound]
      rfl
  | number field value =>
      have hnone : ((hinted params).reverse.find? fun (param, _) => param == value.chars) =
          none := by
        refine List.find?_eq_none.mpr ?_
        intro other hother hname
        rw [List.mem_reverse] at hother
        obtain ⟨param, _, rfl⟩ := List.mem_map.mp hother
        exact value.ne_ident param.1 (beq_iff_eq.mp hname)
      show (Option.map Prod.snd ((hinted params).reverse.find? fun (param, _) =>
          param == value.chars)).getD _ = _
      rw [hnone]
      rfl
  | typed field type value => rfl

/-- An assignment in a constructor is a field. -/
theorem constructorStatementFacts_assignment (owner : String)
    (hdistinct : (params.map fun param => param.1.chars).Nodup) :
    constructorStatementFacts owner (hinted params) assignment.text =
      fieldFacts owner assignment.field.chars assignment.type := by
  have hplace := topLevel?_assignment assignment
  have htarget : strip (beforeAssignment assignment.text) = assignment.target := by
    have hbefore : beforeAssignment assignment.text = assignment.target ++ [' '] := by
      unfold beforeAssignment
      rw [hplace]
      exact List.take_left
    rw [hbefore]
    exact (tidy_target assignment).strip_before (forall_chars (by decide))
  have hvalue : strip (assignment.text.drop ((assignment.target ++ [' ']).length + 1)) =
      assignment.value := by
    rw [Assignment.text, ← List.drop_drop, List.drop_left]
    exact (tidy_value assignment).strip_space
  -- only a hint of its own has a type that is collapsed
  have hcollapse : assignment.type?.map collapse = assignment.type? := by
    cases assignment with
    | parameter field place => rfl
    | number field value => rfl
    | typed field type value => exact congrArg some (TypeTerm.tidy type).collapse
  unfold constructorStatementFacts
  simp only [htarget, receiverTarget?_target, hplace, hvalue, hcollapse]
  exact congrArg (fieldFacts owner assignment.field.chars) (type_of_find? assignment hdistinct)

end Assignments

end Python

end ClassDiagram
