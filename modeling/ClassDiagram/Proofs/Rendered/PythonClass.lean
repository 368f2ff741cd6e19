import ClassDiagram.Proofs.Model.Run
import ClassDiagram.Proofs.Rendered.PythonMember

/-!
# Written classes of Python

A whole class as it is written: its header and, indented below it, its members with their bodies.
Reading it gives back the class that was written.

* `factsFrom_member`: reading the lines of a member tells the member and stays in the class.
* `facts_text`: the facts of a written class, in order.
* `ofContributions_python_class`: the model is the one class, with its members and relations.
-/

namespace ClassDiagram

namespace Python

open Text

/-- The words that are no names of plain bases. -/
def baseWords : List String := keywords ++ enumMarkers ++ abstractMarkers ++ ignoredBases

/-- A class: its name, the names it derives from, and its members. -/
structure ClassTerm where
  name : Ident keywords
  bases : List (Ident baseWords)
  members : List Member

namespace ClassTerm

variable (cls : ClassTerm)

/-- The word that announces a class, and a space. -/
def keyword : Text := "class ".toList

/-- The bases of a class in a row. -/
def baseList : Text := join [',', ' '] (cls.bases.map Ident.chars)

/-- What stands between the name of a class and the colon. -/
def arguments : Text :=
  match cls.bases with
  | [] => []
  | _ :: _ => '(' :: (cls.baseList ++ [')'])

/-- The header of a class. -/
def headerLine : Text := keyword ++ (cls.name.chars ++ (cls.arguments ++ [':']))

/-- The lines of a class. -/
def lines : List LogicalLine := ⟨0, cls.headerLine⟩ :: cls.members.flatMap Member.lines

/-- A class as it is written. -/
def text : Text := writtenLines cls.lines

/-- What the members tell of the class. -/
def classMembers : List ClassMember := cls.members.flatMap Member.toClassMembers

/-- The entity that a class is. -/
def entity : Entity := .ofClass cls.name.name (cls.bases.map Ident.name) [] cls.classMembers

/-- What makes a class well-formed: it does not derive from itself, and its members are told
apart. -/
structure WellFormed : Prop where
  bases_other : ∀ base ∈ cls.bases, base.name ≠ cls.name.name
  fields_distinct : (cls.entity.fields.map Field.name).Nodup
  methods_distinct : (cls.entity.methods.map Method.signature).Nodup

/-- All features of a class, in the order in which they are met. -/
def features : List Feature := Entity.classFeatures (cls.bases.map Ident.name) [] cls.classMembers

end ClassTerm

/-! ## Lines -/

/-- What a line has to be to be read back. -/
def IsLine (text : Text) : Prop := Tidy text ∧ StaysInLine text

/-- The signs of a line, those of its arrows and assignments apart. -/
def lineSigns : List Char := '(' :: ')' :: ':' :: TypeTerm.signs

/-- What closes its brackets and breaks no line stays in its line. -/
theorem staysInLine_of_balanced {top : Char → Prop} {text : Text}
    (h : Balanced lineBrackets top text) (hspelled : Spelled isIdentChar lineSigns text) :
    StaysInLine text := by
  refine scan_balanced h ?_
  intro c hc hother
  have hletter : ∀ d ∈ ['#', '\\', '\n'], isIdentChar d = false := forall_chars (by decide)
  have hsign : ∀ d ∈ ['#', '\\', '\n'], d ∉ lineSigns := forall_chars (by decide)
  exact hspelled.not_mem (hletter c hother) (hsign c hother) hc

/-- An annotated attribute is one line. -/
theorem isLine_annotated {reserved : List String} (name : Ident reserved) (type : TypeTerm) :
    IsLine (annotated name type) := by
  refine ⟨tidy_annotated name type, staysInLine_of_balanced (balanced_annotated name type) ?_⟩
  exact (spelled_annotated name type).mono (by decide)

/-- The part of a function header up to its parenthesis. -/
theorem isLine_call {reserved : List String} (name : Ident reserved) (params : List Param) :
    IsLine (name.chars ++ '(' :: (paramList params ++ [')'])) := by
  constructor
  · refine name.tidy.append (Tidy.listed (by decide) (by decide) ?_)
    exact fun item hitem => (paramList_entry hitem).2
  · have hbalanced : Balanced lineBrackets (fun _ => True)
        (name.chars ++ '(' :: (paramList params ++ [')'])) :=
      (name.balanced fun _ _ => trivial).append
        (.grouped rfl (by decide) trivial trivial (balanced_paramList params))
    refine staysInLine_of_balanced hbalanced (name.spelled.append (.cons (by decide) ?_))
    exact ((spelled_paramList params).mono (by decide)).append (.cons (by decide) .nil)

/-- Words, dots and colons stay in their line. -/
theorem staysInLine_word {word : Text} (h : Spelled isIdentChar ['.', ' ', ':'] word) :
    StaysInLine word := by
  have hordinary : ∀ c ∈ word, isOrdinary c = true :=
    h.forall_mem (fun _ => isOrdinary_of_identChar) (forall_chars (by decide))
  have hbalanced : Balanced lineBrackets (fun _ => True) word :=
    .of_ordinary fun c hc => ⟨hordinary c hc, trivial⟩
  exact staysInLine_of_balanced hbalanced (h.mono (by decide))

/-- A function header, given what stands behind its parenthesis. -/
theorem isLine_function {reserved : List String} (name : Ident reserved) (params : List Param)
    {result : Text}
    (htidy : Tidy ((name.chars ++ '(' :: (paramList params ++ [')'])) ++ (result ++ [':'])))
    (hline : StaysInLine (result ++ [':'])) : IsLine (functionLine name params result) := by
  have hsplit : functionLine name params result = defWord ++
      ((name.chars ++ '(' :: (paramList params ++ [')'])) ++ (result ++ [':'])) := by
    rw [functionLine, List.append_assoc, List.cons_append, List.append_assoc]
    rfl
  have hword : StaysInLine defWord := staysInLine_word (.of_all (by decide))
  rw [hsplit]
  refine ⟨?_, hword.append ((isLine_call name params).2.append hline)⟩
  have hall : Tidy ("def".toList ++ ' ' ::
      ((name.chars ++ '(' :: (paramList params ++ [')'])) ++ (result ++ [':']))) :=
    .space (by decide) (forall_chars (by decide)) htidy
  exact hall

theorem tidy_colon : Tidy [':'] := .word (by decide) (forall_chars (by decide))

theorem staysInLine_colon : StaysInLine [':'] := staysInLine_word (.of_all (by decide))

/-- The head of a method is one line. -/
theorem isLine_method (name : Ident methodWords) (params : List Param) (result : TypeTerm) :
    IsLine (functionLine name params (arrow result)) := by
  have hsigns : Tidy ['-', '>'] := .word (by decide) (forall_chars (by decide))
  have hresult : StaysInLine (TypeTerm.written result) := by
    exact staysInLine_of_balanced (TypeTerm.balanced result)
      ((TypeTerm.spelled result).mono (by decide))
  refine isLine_function name params ?_ ?_
  · exact (isLine_call name params).1.spaced
      (hsigns.spaced ((TypeTerm.tidy result).append tidy_colon))
  -- neither sign of the arrow is a bracket, so that the depth stays as it is
  · exact .cons (by decide) (fun _ => rfl) (.cons (by decide) (fun _ => rfl)
      (.cons (by decide) (fun _ => rfl) (.cons (by decide) (fun _ => rfl)
        (hresult.append staysInLine_colon))))

/-- The head of a constructor is one line. -/
theorem isLine_init (params : List Param) : IsLine (functionLine initName params []) :=
  isLine_function initName params ((isLine_call initName params).1.append tidy_colon)
    staysInLine_colon

/-- An assignment is one line. -/
theorem isLine_assignment {params : List Param} (assignment : Assignment params.length) :
    IsLine assignment.text := by
  have hequals : Tidy ['='] := .word (by decide) (forall_chars (by decide))
  constructor
  · have hall := (tidy_target assignment).spaced (hequals.spaced (tidy_value assignment))
    rw [Assignment.text, List.append_assoc]
    exact hall
  · have htarget : StaysInLine assignment.target := by
      exact staysInLine_of_balanced (balanced_target assignment)
        ((spelled_target assignment).mono (by decide))
    have hvalue : StaysInLine assignment.value :=
      staysInLine_word (.of_letters (identChar_value assignment))
    rw [Assignment.text, List.append_assoc]
    exact htarget.append (.cons (by decide) (fun _ => rfl) (.cons (by decide) (fun _ => rfl)
      (.cons (by decide) (fun _ => rfl) hvalue)))

/-- Each line of a member is one line when it is read. -/
theorem isLine_member {member : Member} {line : LogicalLine} (h : line ∈ member.lines) :
    IsLine line.text := by
  cases member with
  | field name type =>
      rw [List.mem_singleton.mp h]
      exact isLine_annotated name type
  | method name params result =>
      rcases List.mem_pair.mp h with rfl | rfl
      · exact isLine_method name params result
      · exact ⟨.word (by decide) (forall_chars (by decide)),
          staysInLine_word (.of_all (by decide))⟩
  | initializer init =>
      rcases List.mem_cons.mp h with rfl | h
      · exact isLine_init init.params
      · obtain ⟨assignment, _, rfl⟩ := List.mem_map.mp h
        exact isLine_assignment assignment

/-- A base is one word. -/
theorem tidy_base {bases : List (Ident baseWords)} {item : Text}
    (h : item ∈ bases.map Ident.chars) : Tidy item := by
  obtain ⟨base, _, rfl⟩ := List.mem_map.mp h
  exact base.tidy

/-- A base list opens no bracket. -/
theorem balanced_baseList (cls : ClassTerm) :
    Balanced lineBrackets (fun _ => True) cls.baseList := by
  refine Balanced.join ?_ (.of_ordinary (forall_chars (by decide)))
  intro item hitem
  obtain ⟨base, _, rfl⟩ := List.mem_map.mp hitem
  exact base.balanced fun _ _ => trivial

/-- The head of a class is one line. -/
theorem isLine_header (cls : ClassTerm) : IsLine cls.headerLine := by
  have hkeyword : StaysInLine ClassTerm.keyword := staysInLine_word (.of_all (by decide))
  have hname : IsLine cls.name.chars :=
    ⟨cls.name.tidy, staysInLine_word cls.name.spelled⟩
  have hbehind : Tidy (cls.arguments ++ [':']) ∧ StaysInLine (cls.arguments ++ [':']) := by
    unfold ClassTerm.arguments
    split
    · exact ⟨tidy_colon, staysInLine_colon⟩
    · have hlist : Tidy ('(' :: (cls.baseList ++ [')'])) :=
        Tidy.listed (by decide) (by decide) fun item hitem => tidy_base hitem
      have hgroup : Balanced lineBrackets (fun _ => True) ('(' :: (cls.baseList ++ [')'])) :=
        .grouped rfl (by decide) trivial trivial (balanced_baseList cls)
      refine ⟨hlist.append tidy_colon, StaysInLine.append ?_ staysInLine_colon⟩
      exact staysInLine_of_balanced hgroup (.listed (by decide) (by decide) (.of_all (by decide))
        (List.forall_mem_map.mpr fun base _ => base.spelled))
  have hall : Tidy ("class".toList ++ ' ' :: (cls.name.chars ++ (cls.arguments ++ [':']))) :=
    .space (by decide) (forall_chars (by decide)) (hname.1.append hbehind.1)
  exact ⟨hall, hkeyword.append (hname.2.append hbehind.2)⟩

/-- The lines of a class are read back. -/
theorem logicalLines_text (cls : ClassTerm) : logicalLines cls.text = cls.lines := by
  refine logicalLines_written ?_
  intro line hline
  rcases List.mem_cons.mp hline with rfl | hline
  · exact isLine_header cls
  · obtain ⟨member, _, hmember⟩ := List.mem_flatMap.mp hline
    exact isLine_member hmember

/-! ## Reading a line -/

section Read

variable {indent : Nat} {scopes : List OpenScope} {line name rest : Text}

/-- Nothing is folded over an empty list. -/
theorem foldl_attach_of_nil {Item State : Type} {items : List Item} (h : items = [])
    (step : State → { item // item ∈ items } → State) (start : State) :
    items.attach.foldl step start = start := by
  subst h
  rfl

theorem splitTop_nil : splitTop [] (· == ';') false = [] := by decide +kernel

/-- A class header without a body behind it opens the body of the class. -/
theorem readLine_class (h : classHeader? line = some (name, rest))
    (hinline : (headerParts rest).inline = []) :
    readLine indent scopes line = (⟨indent, .body (String.ofList name)⟩ :: scopes,
      classFacts (String.ofList name) (headerParts rest).arguments) := by
  rw [readLine]
  split
  · rename_i found behind hsome
    rw [h] at hsome
    cases hsome
    exact foldl_attach_of_nil (by rw [hinline, splitTop_nil]) _ _
  · rename_i hnone
    rw [h] at hnone
    exact absurd hnone (by simp)

/-- A function header without a body behind it opens the function. -/
theorem readLine_function (hclass : classHeader? line = none)
    (h : functionHeader? line = some (name, rest)) (hinline : (headerParts rest).inline = []) :
    readLine indent scopes line =
      (⟨indent, (openFunction scopes name (headerParts rest)).1⟩ :: scopes,
        (openFunction scopes name (headerParts rest)).2) := by
  rw [readLine]
  split
  · rename_i hsome
    rw [hclass] at hsome
    exact absurd hsome (by simp)
  · split
    · rename_i found behind hsome
      rw [h] at hsome
      cases hsome
      refine foldl_attach_of_nil ?_ _ _
      rw [hinline, ite_self, splitTop_nil]
    · rename_i hnone
      rw [h] at hnone
      exact absurd hnone (by simp)

/-- Any other line is a statement. -/
theorem readLine_statement (hclass : classHeader? line = none)
    (hfunction : functionHeader? line = none) :
    readLine indent scopes line = (scopes, statementFacts scopes line) := by
  rw [readLine]
  split
  · rename_i hsome
    rw [hclass] at hsome
    exact absurd hsome (by simp)
  · split
    · rename_i hsome
      rw [hfunction] at hsome
      exact absurd hsome (by simp)
    · rfl

end Read

/-! ## Reading members -/

section Members

variable {owner : String} {scopes : List OpenScope}

/-- One line is read after the other. -/
theorem factsFrom_cons {indent : Nat} {text : Text} (hstarts : StartsIdent text)
    {next : List OpenScope} {facts : List Fact}
    (hread : readLine indent (closeScopes indent scopes) text = (next, facts))
    (rest : List LogicalLine) :
    factsFrom scopes (⟨indent, text⟩ :: rest) = facts ++ factsFrom next rest := by
  obtain ⟨c, others, rfl, hc⟩ := hstarts
  have hdecorator : (c :: others).head? ≠ some '@' :=
    fun heq => ne_of_identChar hc (by decide) (Option.some.inj heq)
  rw [factsFrom, if_neg hdecorator, hread]

/-- Whether a line at the indentation of a member stands directly in the body of the class. -/
def InBody (owner : String) (scopes : List OpenScope) : Prop :=
  closeScopes 4 scopes = [⟨0, .body owner⟩]

/-- Names are no headers. -/
theorem readLine_name {reserved : List String} (name : Ident reserved) (hsub : keywords ⊆ reserved)
    {c : Char} (hc : isWordChar c = false) (indent : Nat) (rest : Text) :
    readLine indent scopes (name.chars ++ c :: rest) =
      (scopes, statementFacts scopes (name.chars ++ c :: rest)) := by
  have hword : ∀ word ∈ keywords, String.ofList (spanWord (name.chars ++ c :: rest)).1 ≠ word := by
    rintro word hword heq
    rw [name.spanWord_append hc] at heq
    rw [← heq] at hword
    exact name.isFree (hsub hword)
  exact readLine_statement (classHeader?_eq_none (hword "class" (by decide)))
    (functionHeader?_eq_none (hword "async" (by decide)) (hword "def" (by decide)))

/-- The scopes that are open in a method of the class. -/
def methodScopes (owner : String) (name : Text) (params : List Param) : List OpenScope :=
  [⟨4, .method owner name (hinted params)⟩, ⟨0, .body owner⟩]

/-- A written function header opens the method. -/
theorem factsFrom_def {reserved : List String} (hbody : InBody owner scopes)
    (name : Ident reserved) (params : List Param) {result : Text}
    (hresult : headerEnd? 0 (result ++ [':']) = some result.length) (rest : List LogicalLine) :
    factsFrom scopes (⟨4, functionLine name params result⟩ :: rest) =
      methodFacts owner name.chars (hinted params) result ++
      factsFrom (methodScopes owner name.chars params) rest := by
  have hspan : String.ofList (spanWord (functionLine name params result)).1 = "def" := rfl
  have hclass : classHeader? (functionLine name params result) = none :=
    classHeader?_eq_none (by rw [hspan]; decide)
  have hparts := headerParts_call (balanced_paramList params) hresult
  have hread : readLine 4 [⟨0, .body owner⟩] (functionLine name params result) =
      (methodScopes owner name.chars params,
        methodFacts owner name.chars (hinted params) result) := by
    rw [readLine_function hclass (functionHeader?_line name params result) (by rw [hparts]), hparts,
      methodScopes, ← parameters_join]
    rfl
  have hstarts : StartsIdent (functionLine name params result) := ⟨'d', _, rfl, by decide⟩
  refine factsFrom_cons hstarts ?_ rest
  rw [hbody, hread]

/-- A line in the body of a method is a statement there. -/
theorem factsFrom_inner (name : Text) (params : List Param) {text : Text} {word : String}
    (hword : String.ofList (spanWord text).1 = word) (hfree : word ∉ ["class", "async", "def"])
    (hstarts : StartsIdent text) (rest : List LogicalLine) :
    factsFrom (methodScopes owner name params) (⟨8, text⟩ :: rest) =
      statementFacts (methodScopes owner name params) text ++
        factsFrom (methodScopes owner name params) rest := by
  have hne : ∀ other ∈ ["class", "async", "def"], String.ofList (spanWord text).1 ≠ other := by
    rintro other hother heq
    rw [← heq, hword] at hother
    exact hfree hother
  have hread : readLine 8 (methodScopes owner name params) text =
      (methodScopes owner name params, statementFacts (methodScopes owner name params) text) :=
    readLine_statement (classHeader?_eq_none (hne "class" (by decide)))
      (functionHeader?_eq_none (hne "async" (by decide)) (hne "def" (by decide)))
  exact factsFrom_cons hstarts hread rest

/-- Only the statements of a constructor tell something. -/
theorem statementFacts_method (name : Text) (params : List Param) (line : Text) :
    statementFacts (methodScopes owner name params) line =
      if name = "__init__".toList then
        constructorStatementFacts owner (hinted params) line
      else [] := rfl

/-- The statements of a constructor tell its fields and stay in it. -/
theorem factsFrom_assignments {params : List Param}
    (hdistinct : (params.map fun param => param.1.chars).Nodup)
    (assignments : List (Assignment params.length)) (rest : List LogicalLine) :
    factsFrom (methodScopes owner initName.chars params)
        ((assignments.map fun assignment => ⟨8, assignment.text⟩) ++ rest) =
      (assignments.flatMap fun assignment =>
        fieldFacts owner assignment.field.chars assignment.type) ++
      factsFrom (methodScopes owner initName.chars params) rest := by
  induction assignments with
  | nil => rfl
  | cons assignment others ih =>
      have hstatement : statementFacts (methodScopes owner initName.chars params)
          assignment.text = fieldFacts owner assignment.field.chars assignment.type := by
        have hinit : initName.chars = "__init__".toList := rfl
        rw [statementFacts_method, if_pos hinit,
          constructorStatementFacts_assignment assignment owner hdistinct]
      rw [List.map_cons, List.cons_append, factsFrom_inner initName.chars params
        (show String.ofList (spanWord assignment.text).1 = "self" from rfl) (by decide)
        ⟨'s', _, rfl, by decide⟩, ih, hstatement, List.flatMap_cons, List.append_assoc]

/-- Reading the lines of a member tells the member and stays in the class. -/
theorem factsFrom_member (hbody : InBody owner scopes) (member : Member)
    (rest : List LogicalLine) :
    ∃ next, InBody owner next ∧
      factsFrom scopes (member.lines ++ rest) =
        (member.toClassMembers.flatMap ClassMember.features).map (Feature.toFact owner) ++
          factsFrom next rest := by
  -- a field closes the method before it; a method stays open until the next member closes it
  cases member with
  | field name type =>
      refine ⟨[⟨0, .body owner⟩], rfl, ?_⟩
      have hread : readLine 4 (closeScopes 4 scopes) (annotated name type) =
          ([⟨0, .body owner⟩], fieldFacts owner name.chars (TypeTerm.written type)) := by
        rw [hbody, annotated, readLine_name name (List.Subset.refl _) (by decide),
          ← bodyStatementFacts_field]
        rfl
      refine (factsFrom_cons (name.starts.append _) hread rest).trans ?_
      rw [fieldFacts_eq]
      simp [Member.toClassMembers, usedBy]
  | method name params result =>
      refine ⟨methodScopes owner name.chars params, rfl, ?_⟩
      have hpass : statementFacts (methodScopes owner name.chars params) passLine = [] := by
        have hinit : name.chars ≠ "__init__".toList := name.chars_ne (by decide)
        rw [statementFacts_method, if_neg hinit]
      have hbehind : factsFrom (methodScopes owner name.chars params) (⟨8, passLine⟩ :: rest) =
          statementFacts (methodScopes owner name.chars params) passLine ++
            factsFrom (methodScopes owner name.chars params) rest :=
        factsFrom_inner name.chars params
          (show String.ofList (spanWord passLine).1 = "pass" from rfl) (by decide)
          ⟨'p', _, rfl, by decide⟩ rest
      refine (factsFrom_def hbody name params (headerEnd?_arrow result) _).trans ?_
      rw [methodFacts_method]
      refine congrArg _ (hbehind.trans ?_)
      rw [hpass, List.nil_append]
  | initializer init =>
      refine ⟨methodScopes owner initName.chars init.params, rfl, ?_⟩
      -- the header tells no method, only what the parameters use
      refine (factsFrom_def hbody initName init.params (by decide) _).trans ?_
      rw [methodFacts_init]
      refine (congrArg _ (factsFrom_assignments init.distinct init.assignments rest)).trans ?_
      rw [← List.append_assoc]
      simp only [Member.toClassMembers, List.flatMap_cons, List.map_append, fieldFacts_eq,
        List.map_flatMap, List.flatMap_map]
      rfl

/-- Reading the lines of all members tells them in order. -/
theorem factsFrom_members (hbody : InBody owner scopes) (members : List Member) :
    factsFrom scopes (members.flatMap Member.lines) =
      ((members.flatMap Member.toClassMembers).flatMap ClassMember.features).map
        (Feature.toFact owner) := by
  induction members generalizing scopes with
  | nil => rfl
  | cons member rest ih =>
      obtain ⟨next, hnext, hfacts⟩ := factsFrom_member hbody member (rest.flatMap Member.lines)
      rw [List.flatMap_cons, hfacts, ih hnext, List.flatMap_cons, List.flatMap_append,
        List.map_append]

end Members

/-! ## The header -/

section Header

variable (cls : ClassTerm)

/-- The class's name is read from its head, with its bases left to read. -/
theorem classHeader?_header :
    classHeader? cls.headerLine = some (cls.name.chars, cls.arguments ++ [':']) := by
  have hspan : spanWord cls.headerLine =
      ("class".toList, ' ' :: (cls.name.chars ++ (cls.arguments ++ [':']))) := rfl
  have hkeyword : afterKeyword? "class" cls.headerLine =
      some (cls.name.chars ++ (cls.arguments ++ [':'])) := by
    unfold afterKeyword?
    rw [hspan]
    show (if String.ofList "class".toList = "class" then _ else none) = _
    rw [String.ofList_toList, if_pos rfl, afterBlanks?, if_pos (by decide),
      cls.name.tidy.stripStart_append]
  rw [classHeader?, hkeyword, Option.bind_some]
  unfold ClassTerm.arguments
  split
  · exact cls.name.name?_append (by decide) []
  · exact cls.name.name?_append (by decide) _

/-- The bases are the arguments of the head. -/
theorem headerParts_header : headerParts (cls.arguments ++ [':']) = ⟨cls.baseList, [], []⟩ := by
  unfold ClassTerm.arguments
  split
  · rename_i hbases
    rw [ClassTerm.baseList, hbases]
    rfl
  · have hparts : headerParts ('(' :: (cls.baseList ++ ')' :: ([] ++ [':']))) =
        ⟨cls.baseList, [], []⟩ := headerParts_call (balanced_baseList cls) (by decide)
    rw [List.cons_append, List.append_assoc]
    exact hparts

/-- A plain base is a base and nothing else. -/
theorem add_base (shape : ClassShape) (base : Ident baseWords) :
    shape.add base.chars = { shape with bases := shape.bases ++ [(base.chars, [])] } := by
  have hassign : topLevel? ['='] base.chars = none := by
    have hbalanced : Balanced lineBrackets (fun c => isIdentChar c = true) base.chars :=
      base.balanced fun _ hc => hc
    exact topLevel?_balanced hbalanced (passes_assignment _)
  have hbracket : '[' ∉ base.chars := base.not_mem (by decide)
  have hname : simpleName (strip (upTo '[' base.chars)) = base.chars := by
    rw [upTo_of_not_mem hbracket, base.tidy.strip, simpleName_of_not_mem (base.not_mem (by decide))]
  have hsubscript : beforeLast ']' (past '[' base.chars) = [] := by
    rw [past_of_not_mem hbracket]
    rfl
  have hfree : ∀ words, words ⊆ baseWords → words.contains (String.ofList base.chars) = false := by
    intro words hsub
    simpa using fun hmem => base.isFree (hsub hmem)
  unfold ClassShape.add
  simp only [hassign, hname, hfree enumMarkers (by decide), hfree abstractMarkers (by decide),
    hfree ignoredBases (by decide), base.isName_chars, hsubscript, Bool.false_eq_true, if_false,
    Bool.not_false, Bool.and_self, if_true]

/-- The head of a class declares it and tells its bases, in order. -/
theorem classFacts_header (owner : String) :
    classFacts owner cls.baseList =
      .declares owner .cls "class" none ::
        ((cls.bases.map Ident.name).map Feature.base).map (Feature.toFact owner) := by
  have hsplit : splitTop cls.baseList (· == ',') false = cls.bases.map Ident.chars := by
    refine splitTop_commas (show isIdentChar ',' = false by decide) ?_
    intro item hitem
    obtain ⟨base, _, rfl⟩ := List.mem_map.mp hitem
    exact ⟨base.balanced fun c hc => hc, base.tidy⟩
  -- each base is put behind those before it, and nothing else of the shape changes
  have hfold : ∀ (bases : List (Ident baseWords)) (shape : ClassShape),
      (bases.map Ident.chars).foldl ClassShape.add shape =
        { shape with bases := shape.bases ++ bases.map fun base => (base.chars, []) } := by
    intro bases
    induction bases with
    | nil => simp
    | cons base rest ih =>
        intro shape
        rw [List.map_cons, List.foldl_cons, add_base, ih]
        simp
  unfold classFacts classShape
  rw [hsplit, hfold]
  simp only [List.nil_append, List.flatMap_map, usesOf, usesOf_nil]
  rw [← List.map_eq_flatMap, List.map_map, List.map_map]
  rfl

end Header

/-! ## The whole class -/

section Whole

variable {cls : ClassTerm}

/-- The facts of a written class: it is declared, and then its features are told. -/
theorem facts_text (cls : ClassTerm) :
    facts cls.text =
      .declares cls.name.name .cls "class" none ::
        cls.features.map (Feature.toFact cls.name.name) := by
  have hstarts : StartsIdent cls.headerLine := ⟨'c', _, rfl, by decide⟩
  have hread : readLine 0 [] cls.headerLine =
      ([⟨0, .body cls.name.name⟩], classFacts cls.name.name cls.baseList) := by
    have hparts := headerParts_header cls
    rw [readLine_class (classHeader?_header cls) (by rw [hparts]), hparts]
    rfl
  have hbody : InBody cls.name.name [⟨0, .body cls.name.name⟩] := rfl
  rw [facts, logicalLines_text, ClassTerm.lines, factsFrom_cons hstarts hread,
    factsFrom_members hbody, classFacts_header, ClassTerm.features, Entity.classFeatures,
    List.map_append, List.map_nil, List.nil_append]
  rfl

/-- Reading a well-formed class as it is written gives that class and nothing else: its name, its
bases, the fields of its body and of its constructor in order with their types, its methods but not
its constructor, and what the hints use. -/
theorem ofContributions_python_class (h : cls.WellFormed) :
    (Source.read { text := cls.text } .python).fault = none ∧
      Model.ofContributions [⟨.python, { text := cls.text }⟩] = ⟨[cls.entity]⟩ := by
  have hother : ∀ other ∈ cls.bases.map Ident.name ++ [], other ≠ "" ∧ other ≠ cls.name.name := by
    intro other hmem
    rw [List.append_nil] at hmem
    obtain ⟨base, hbase, rfl⟩ := List.mem_map.mp hmem
    exact ⟨base.name_ne_empty, h.bases_other base hbase⟩
  have hgain : ({ name := cls.name.name } : Entity).gainAll (Entity.classFeatures
      (cls.bases.map Ident.name) [] (cls.classMembers ++ [])) = cls.entity :=
    Entity.gainAll_class (by simp) h.fields_distinct h.methods_distinct hother
  refine ⟨rfl, ?_⟩
  show Model.empty.applyAll ((facts cls.text).map (Finding.mk .python)) = _
  rw [List.append_nil] at hgain
  rw [facts_text, Model.applyAll_declared, ClassTerm.features, hgain]

/-- A class with two bases and members of every form. -/
def shelf : ClassTerm :=
  let book : TypeTerm := .named { first := { chars := "Book".toList } }
  let lists : Dotted keywords := ⟨{ chars := "typing".toList }, [{ chars := "List".toList }]⟩
  let label : Param := ({ chars := "label".toList }, .named { first := { chars := "str".toList } })
  { name := { chars := "Shelf".toList }
    bases := [{ chars := "Box".toList }, { chars := "Sized".toList }]
    members := [
      .field { chars := "books".toList } (.applied lists [book,
        .leaf (.applied lists [.named { first := { chars := "Shelf".toList } }])]),
      .initializer
        { params := [label, ({ chars := "top".toList }, .union book
            (.leaf (.named { first := { chars := "Lid".toList } })) [])]
          assignments := [
            .parameter { chars := "cover".toList } ⟨1, by decide⟩,
            .number { chars := "size".toList } { chars := "12".toList },
            .typed { chars := "left".toList } book { chars := "0".toList }] },
      .method { chars := "find".toList } [label] (.applied lists [book])] }

theorem shelf_read : shelf.WellFormed ∧
    String.ofList shelf.text = "class Shelf(Box, Sized):
    books: typing.List[Book, \"typing.List[Shelf]\"]
    def __init__(self, label: str, top: Book | \"Lid\"):
        self.cover = top
        self.size = 12
        self.left: Book = 0
    def find(self, label: str) -> typing.List[Book]:
        pass
" ∧
    Model.ofContributions [⟨.python, { text := shelf.text }⟩] = ⟨[shelf.entity]⟩ := by
  have hshelf : shelf.WellFormed :=
    { bases_other := by decide
      fields_distinct := by decide
      methods_distinct := by decide }
  refine ⟨hshelf, ?_, (ofContributions_python_class hshelf).2⟩
  -- unfolded, the text and the literal are the same list of characters
  set_option maxRecDepth 4000 in
  rfl

end Whole

end Python

end ClassDiagram
