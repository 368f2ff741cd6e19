import ClassDiagram.Proofs.Reading.Owner
import ClassDiagram.Proofs.Reading.TypeScriptUnits
import ClassDiagram.Proofs.Rendered.TypeScriptMember
import ClassDiagram.Proofs.TypeExpr.UnionLine

/-!
# Unions that go over several lines

A line break ends a member also where it stands before or behind the bar of a union. A member whose
annotation is a union is read up to its first line break, and the rest of it tells nothing.

* `unitFacts_named`: a name with an annotation is a field, whatever the name is.
* `unitFacts_line`: a line of a union tells nothing by itself.
* `UnionMember.memberFacts_text`: what a member tells whose annotation is a union over several lines.
* `readMembers_union`: when the line breaks make no difference to its interface.
-/

namespace ClassDiagram

open Text

namespace TypeScript

variable {owner : String}

/-! ## Units that begin with a name -/

section Name

variable (name : Identifier) {rest : Text}

/-- A name ends before a text that does not begin with a character of names. -/
theorem dollarName?_identifier (h : ∀ c ∈ rest.head?, isDollarNameChar c = false) :
    dollarName? (name.chars ++ rest) = some (name.chars, rest) := by
  have hname := name.isName
  cases hchars : name.chars with
  | nil => exact absurd hchars name.ne_nil
  | cons first others =>
      rw [hchars, isDollarName, Bool.and_eq_true, List.all_eq_true] at hname
      exact nameBy?_append hname.1 hname.2 h

/-- The first character of a name. -/
theorem exists_cons_identifier : ∃ first others, name.chars = first :: others ∧
    isDollarNameChar first = true ∧ isDollarNameStart first = true := by
  have hname := name.isName
  cases hchars : name.chars with
  | nil => exact absurd hchars name.ne_nil
  | cons first others =>
      rw [hchars, isDollarName, Bool.and_eq_true] at hname
      exact ⟨first, others, rfl, nameChar_of_nameStart hname.1, hname.1⟩

/-- A text that begins with a name does not begin with a sign. -/
theorem head?_identifier_ne {c : Char} (hc : isDollarNameChar c = false) :
    (name.chars ++ rest).head? ≠ some c := by
  obtain ⟨first, others, hchars, hfirst, -⟩ := exists_cons_identifier name
  rw [hchars, List.cons_append, List.head?_cons]
  exact fun heq => ne_of_class hfirst hc (Option.some.inj heq)

/-- The name at the start of a unit is the member's. -/
theorem memberName?_identifier (h : ∀ c ∈ rest.head?, isDollarNameChar c = false) :
    memberName? (name.chars ++ rest) = some (name.chars, rest) := by
  rw [← dollarName?_identifier name h]
  have hmark : (name.chars ++ rest).head? ≠ some '#' := head?_identifier_ne name (by decide)
  unfold memberName?
  split
  · rename_i heq
    exact absurd (congrArg List.head? heq) hmark
  · rfl

/-- A unit that begins with a name is not passed over. -/
theorem isPassedOver_identifier : isPassedOver (name.chars ++ rest) = false := by
  obtain ⟨first, others, hchars, hfirst, -⟩ := exists_cons_identifier name
  have hne : ∀ d, isDollarNameChar d = false → (first == d) = false := fun d hd =>
    beq_eq_false_iff_ne.mpr (ne_of_class hfirst hd)
  rw [hchars, List.cons_append, isPassedOver, hne '[' (by decide), hne '(' (by decide),
    hne '\x7d' (by decide), hne '\x7b' (by decide), hne '<' (by decide)]
  rfl

/-- Without a parenthesis behind it a name announces no constructor. -/
theorem constructor?_identifier (h : ∀ c ∈ rest.head?, isDollarNameChar c = false)
    (hparen : (stripStart rest).head? ≠ some '(') : constructor? (name.chars ++ rest) = none := by
  have hword : ∀ d ∈ "constructor".toList, isDollarNameChar d = true := forall_chars (by decide)
  unfold constructor?
  by_cases hfront : "constructor".toList.isPrefixOf (name.chars ++ rest) = true
  · obtain ⟨tail, htail⟩ := List.isPrefixOf_iff_prefix.mp hfront
    rw [if_pos hfront, ← htail, List.drop_left]
    refine if_neg ?_
    rcases List.append_eq_append_iff.mp htail with ⟨more, hname, rfl⟩ | ⟨more, hname, hmore⟩
    -- the name goes on behind the word, or ends with it
    · cases more with
      | nil => exact hparen
      | cons d others =>
          have hd : isDollarNameChar d = true := name.nameChar d (by rw [hname]; simp)
          rw [List.cons_append, stripStart, List.dropWhile_cons_of_neg
            (by rw [not_blank_of_nameChar hd]; exact Bool.false_ne_true)]
          exact fun heq => ne_of_class hd (by decide) (Option.some.inj heq)
    -- the word goes on behind the name, with what ends the name
    · cases more with
      | nil =>
          rw [List.nil_append] at hmore
          exact hmore ▸ hparen
      | cons d others =>
          have hd : isDollarNameChar d = true := hword d (by rw [hname]; simp)
          rw [h d (by rw [hmore]; rfl)] at hd
          exact absurd hd Bool.false_ne_true
  · rw [if_neg hfront]

/-- What follows the blanks behind the word at the front, which the name may go beyond. -/
theorem afterBlanks?_identifier (h : ∀ c ∈ rest.head?, isDollarNameChar c = false) :
    afterBlanks? (spanWord (name.chars ++ rest)).2 = none ∨
      afterBlanks? (spanWord (name.chars ++ rest)).2 = afterBlanks? rest := by
  show afterBlanks? ((name.chars ++ rest).dropWhile isWordChar) = _ ∨
    afterBlanks? ((name.chars ++ rest).dropWhile isWordChar) = _
  rw [List.dropWhile_append]
  split
  · refine Or.inr (congrArg afterBlanks? ?_)
    cases rest with
    | nil => rfl
    | cons c tail =>
        have hc : isWordChar c = false := by
          have hboth := h c rfl
          rw [isDollarNameChar, Bool.or_eq_false_iff] at hboth
          exact hboth.1
        exact List.dropWhile_cons_of_neg (by simp [hc])
  · rename_i hmore
    refine Or.inl ?_
    cases hdrop : name.chars.dropWhile isWordChar with
    | nil => exact absurd (by rw [hdrop]; rfl) hmore
    | cons c tail =>
        have hc : isDollarNameChar c = true :=
          name.nameChar c ((List.dropWhile_sublist _).subset (by rw [hdrop]; exact List.mem_cons_self))
        rw [List.cons_append, afterBlanks?, if_neg (by simp [not_blank_of_nameChar hc])]

end Name

/-- Words are only dropped where blanks follow them. -/
theorem dropLeading_of_none {words : List String} {text : Text}
    (h : afterBlanks? (spanWord text).2 = none) : dropLeading words text = text := by
  rw [dropLeading]
  split
  · split
    · rename_i hsome
      rw [h] at hsome
      exact absurd hsome nofun
    · rfl
  · rfl

/-- A first word with blanks behind it is dropped, or nothing is. -/
theorem dropLeading_of_some {words : List String} {text rest : Text}
    (h : afterBlanks? (spanWord text).2 = some rest) :
    dropLeading words text = text ∨ dropLeading words text = dropLeading words rest := by
  rw [dropLeading]
  split
  · split
    · rename_i hsome
      rw [h] at hsome
      exact Or.inr (by rw [Option.some.inj hsome])
    · exact Or.inl rfl
  · exact Or.inl rfl

/-- What a unit tells without its decorators and modifiers. -/
def bareFacts (owner : String) (text : Text) : List Fact :=
  if isPassedOver text then []
  else
    match constructor? text, accessor? text, methodHead? text with
    | some rest, _, _ => constructorFacts owner rest
    | none, some (reads, name, rest), _ => accessorFacts owner reads name rest
    | none, none, some (name, rest) =>
      if name = "new".toList then [] else callableFacts owner name rest
    | none, none, none =>
      match fieldHead? text with
      | some (name, rest) => valueFacts owner name rest
      | none => []

/-- A tidy unit without decorators tells what it tells without its modifiers. -/
theorem unitFacts_of_tidy {unit : Text} (h : Tidy unit) (hat : unit.head? ≠ some '@') :
    unitFacts owner unit = bareFacts owner (dropLeading modifiers unit) := by
  show bareFacts owner (dropLeading modifiers (dropDecorators unit.collapse)) = _
  rw [h.collapse, dropDecorators_of_head h hat]

/-- A name with an annotation is a field, whatever the name is. -/
theorem unitFacts_named (name : Identifier) {rest : Text}
    (htidy : Tidy (name.chars ++ ':' :: rest)) :
    unitFacts owner (name.chars ++ ':' :: rest) = valueFacts owner name.chars (':' :: rest) := by
  have hstops : ∀ c ∈ (':' :: rest).head?, isDollarNameChar c = false := by
    rintro c ⟨⟩
    decide
  -- the name is followed by its colon, so it is neither a modifier nor an accessor's keyword
  have hblanks : afterBlanks? (spanWord (name.chars ++ ':' :: rest)).2 = none := by
    rcases afterBlanks?_identifier name hstops with h | h
    · exact h
    · rw [h, afterBlanks?, if_neg (by decide)]
  have hname := memberName?_identifier name hstops
  have hsign : ∀ signs, ':' ∉ signs → dropSign signs (':' :: rest) = ':' :: rest :=
    fun _ hno => dropSign_of_other (by decide) hno rest
  have haccessor : accessor? (name.chars ++ ':' :: rest) = none := by
    unfold accessor?
    dsimp only
    rw [hblanks]
    split <;> rfl
  have hmethod : methodHead? (name.chars ++ ':' :: rest) = none := by
    unfold methodHead?
    rw [hname]
    simp only [hsign ['?'] (by decide)]
    exact if_neg (by simp)
  have hfield : fieldHead? (name.chars ++ ':' :: rest) = some (name.chars, ':' :: rest) := by
    unfold fieldHead?
    rw [hname]
    simp only [hsign ['?', '!'] (by decide)]
    exact if_pos (by simp)
  have hstrip : (stripStart (':' :: rest)).head? ≠ some '(' := by
    rw [stripStart, List.dropWhile_cons_of_neg (by decide)]
    simp
  rw [unitFacts_of_tidy htidy (head?_identifier_ne name (by decide)), dropLeading_of_none hblanks,
    bareFacts]
  simp only [isPassedOver_identifier, constructor?_identifier name hstops hstrip, haccessor, hmethod,
    hfield, Bool.false_eq_true, if_false]

/-! ## Lines of a union -/

/-- What may follow the first name of a line: nothing, a bar, a further segment, or arguments and then
nothing or a bar. -/
inductive Trails : Text → Prop where
  | nil : Trails []
  | bar (rest : Text) : Trails (' ' :: '|' :: rest)
  | segment (rest : Text) : Trails ('.' :: rest)
  | args {inner rest : Text} : Nested (fun _ => True) inner → Unquoted rest →
      rest = [] ∨ (∃ more, rest = ' ' :: '|' :: more) → Trails ('<' :: (inner ++ '>' :: rest))

/-- No member's name begins with a bar. -/
theorem memberName?_bar (rest : Text) : memberName? ('|' :: rest) = none := by
  show dollarName? ('|' :: rest) = none
  rw [dollarName?, nameBy?, if_neg (by decide)]

/-- Nothing is dropped before a bar. -/
theorem dropLeading_bar {words : List String} (hwords : "" ∉ words) (rest : Text) :
    dropLeading words ('|' :: rest) = '|' :: rest := by
  refine dropLeading_of_not_mem ?_
  rwa [spanWord, List.takeWhile_cons_of_neg (by decide)]

/-- What begins with a bar is no member. -/
theorem bareFacts_bar (rest : Text) : bareFacts owner ('|' :: rest) = [] := by
  have hword : spanWord ('|' :: rest) = ([], '|' :: rest) := by
    rw [spanWord, List.takeWhile_cons_of_neg (by decide), List.dropWhile_cons_of_neg (by decide)]
  have hconstructor : constructor? ('|' :: rest) = none := by
    have hfront : ¬ "constructor".toList.isPrefixOf ('|' :: rest) = true := Bool.false_ne_true
    unfold constructor?
    rw [if_neg hfront]
  have haccessor : accessor? ('|' :: rest) = none := by
    unfold accessor?
    rw [hword]
    exact if_neg (by decide)
  have hmethod : methodHead? ('|' :: rest) = none := by rw [methodHead?, memberName?_bar]
  have hfield : fieldHead? ('|' :: rest) = none := by rw [fieldHead?, memberName?_bar]
  have hpassed : isPassedOver ('|' :: rest) = false := rfl
  rw [bareFacts]
  simp only [hpassed, hconstructor, haccessor, hmethod, hfield, Bool.false_eq_true, if_false]

section Trails

variable (name : Identifier) {rest : Text}

/-- The first name of a line ends where the rest begins. -/
theorem Trails.stops (h : Trails rest) : ∀ c ∈ rest.head?, isDollarNameChar c = false := by
  cases h with
  | nil => exact nofun
  | bar | segment | args =>
      rintro c ⟨⟩
      decide

/-- Behind the name comes a bar at best, once a blank has. -/
theorem Trails.bind_memberName? (h : Trails rest) :
    (afterBlanks? (spanWord (name.chars ++ rest)).2).bind memberName? = none := by
  rcases afterBlanks?_identifier name h.stops with hnone | hrest
  · rw [hnone]
    rfl
  · rw [hrest]
    cases h with
    | bar more =>
        rw [afterBlanks?, if_pos (by decide), stripStart, List.dropWhile_cons_of_neg (by decide)]
        exact memberName?_bar more
    | nil | segment | args => rfl

/-- A word is only dropped before a bar. -/
theorem Trails.dropLeading_cases (h : Trails rest) {words : List String} (hwords : "" ∉ words) :
    dropLeading words (name.chars ++ rest) = name.chars ++ rest ∨
      ∃ more, dropLeading words (name.chars ++ rest) = '|' :: more := by
  rcases afterBlanks?_identifier name h.stops with hnone | hrest
  · exact Or.inl (dropLeading_of_none hnone)
  · cases h with
    | bar more =>
        rw [afterBlanks?, if_pos (by decide), stripStart, List.dropWhile_cons_of_neg (by decide)]
          at hrest
        exact (dropLeading_of_some hrest).imp_right fun hdrop =>
          ⟨more, hdrop.trans (dropLeading_bar hwords more)⟩
    | nil | segment | args => exact Or.inl (dropLeading_of_none hrest)

/-- There is no sign of an optional member behind the first name. -/
theorem Trails.dropSign_eq (h : Trails rest) {signs : List Char} (hsigns : signs ⊆ ['?', '!']) :
    dropSign signs rest = stripStart rest := by
  have hno : ∀ c, c ∉ ['?', '!'] → c ∉ signs := fun c hc hmem => hc (hsigns hmem)
  cases h with
  | nil => rfl
  | bar more =>
      have hbar : dropSign signs (' ' :: '|' :: more) =
          dropSign signs ('|' :: more) := rfl
      exact hbar.trans (dropSign_of_other (by decide) (hno '|' (by decide)) more)
  | segment more => exact dropSign_of_other (by decide) (hno '.' (by decide)) more
  | args => exact dropSign_of_other (by decide) (hno '<' (by decide)) _

/-- Behind arguments in angle brackets a bar is no parameter list. -/
theorem callableFacts_args (chars : Text) {inner : Text} (hinner : Nested (fun _ => True) inner)
    (hunquoted : Unquoted rest) (hrest : rest = [] ∨ ∃ more, rest = ' ' :: '|' :: more) :
    callableFacts owner chars ('<' :: (inner ++ '>' :: rest)) = [] := by
  have hclosing : closing? ('<' :: (inner ++ '>' :: rest)) = some (inner.length + 1) :=
    closing?_nested hinner rfl hunquoted
  have hbehind : ('<' :: (inner ++ '>' :: rest)).drop (inner.length + 1 + 1) = rest := by simp
  have hparen : (stripStart rest).head? ≠ some '(' := by
    rcases hrest with rfl | ⟨more, rfl⟩
    · exact nofun
    · exact nofun
  unfold callableFacts
  simp only [List.head?_cons, if_true, hclosing, hbehind, if_neg hparen]

/-- A name before a bar, a further segment or arguments is no member. -/
theorem Trails.bareFacts_eq_nil (h : Trails rest) : bareFacts owner (name.chars ++ rest) = [] := by
  have hname := memberName?_identifier name h.stops
  have hquestion : dropSign ['?'] rest = stripStart rest := h.dropSign_eq (by decide)
  have hboth : dropSign ['?', '!'] rest = stripStart rest := h.dropSign_eq (by decide)
  have haccessor : accessor? (name.chars ++ rest) = none := by
    unfold accessor?
    dsimp only
    rw [h.bind_memberName? name]
    split <;> rfl
  have hparen : (stripStart rest).head? ≠ some '(' := by
    cases h <;> exact nofun
  have hconstructor := constructor?_identifier name h.stops hparen
  have hmethod : methodHead? (name.chars ++ rest) =
      if (stripStart rest).head? = some '<' then some (name.chars, stripStart rest) else none := by
    unfold methodHead?
    rw [hname]
    simp only [hquestion, hparen, or_false]
  have hfield : fieldHead? (name.chars ++ rest) =
      if (stripStart rest).isEmpty ∨ (stripStart rest).head? = some ':' ∨
        (stripStart rest).head? = some '=' then some (name.chars, stripStart rest) else none := by
    unfold fieldHead?
    rw [hname]
    simp only [hboth]
  rw [bareFacts]
  simp only [isPassedOver_identifier, hconstructor, haccessor, hmethod, hfield, Bool.false_eq_true,
    if_false]
  -- with arguments the name is read as a method's, which has no parentheses
  cases h with
  | nil => rfl
  | bar more => rfl
  | segment more => rfl
  | @args inner more hinner hunquoted hmore =>
      show (if name.chars = _ then [] else callableFacts owner name.chars ('<' :: (inner ++ '>' :: more))) = []
      rw [callableFacts_args name.chars hinner hunquoted hmore, ite_self]

end Trails

/-- What follows the first name of a line. -/
theorem exists_trails (value : Operand) {backs : List UnionToken}
    (h : UnionToken.Alternate (.operand value :: backs)) :
    ∃ rest, UnionToken.line (.operand value :: backs) = value.head.first.chars ++ rest ∧
      Trails rest := by
  -- behind an operand the line ends or a bar follows
  obtain ⟨tail, hline, htail⟩ : ∃ tail, UnionToken.line (.operand value :: backs) =
      value.text ++ tail ∧ (tail = [] ∨ ∃ more, tail = ' ' :: '|' :: more) := by
    refine ⟨_, UnionToken.line_cons (.operand value) backs, ?_⟩
    cases backs with
    | nil => exact Or.inl rfl
    | cons second others =>
        obtain rfl : second = .bar :=
          ((List.isChain_cons.mp h).1 second rfl).resolve_left nofun
        exact Or.inr ⟨_, rfl⟩
  have hunquoted : Unquoted tail := fun c hc =>
    UnionToken.nested_line.unquoted c (hline ▸ List.mem_append_right _ hc)
  obtain ⟨⟨first, others, kept⟩, args⟩ := value
  rw [hline, Operand.text_eq_append]
  cases others with
  | cons second more =>
      have hhead : (DottedName.mk first (second :: more) kept).text =
          first.chars ++ '.' :: (DottedName.mk second more fun segment hsegment =>
            kept segment (List.mem_cons_of_mem _ hsegment)).text := by
        show join ['.'] (first.chars :: second.chars :: more.map Identifier.chars) = _
        rw [join, List.intercalate_cons_cons, List.append_assoc]
        rfl
      rw [hhead, List.append_assoc, List.append_assoc]
      exact ⟨_, rfl, .segment _⟩
  | nil =>
      have hhead : (DottedName.mk first [] kept).text = first.chars := by
        show join ['.'] [first.chars] = _
        rw [join, List.intercalate_singleton]
      rw [hhead, List.append_assoc]
      refine ⟨_, rfl, ?_⟩
      by_cases hargs : args = []
      · rw [Operand.behind, if_pos hargs, List.nil_append]
        rcases htail with rfl | ⟨more, rfl⟩
        · exact .nil
        · exact .bar more
      · have hinner : Nested (fun _ => True) (join [',', ' '] (args.map TypeTree.plain)) := by
          refine .join (fun item hitem => ?_) (.of_inert (forall_chars (by decide)))
          obtain ⟨arg, _, rfl⟩ := List.mem_map.mp hitem
          exact (TypeTree.nested Dialect.regular_typeScript arg).inside
        rw [Operand.behind, if_neg hargs, List.cons_append, List.append_assoc]
        exact .args hinner hunquoted htail

/-- A line of a union tells nothing by itself. -/
theorem unitFacts_line {tokens : List UnionToken} (h : UnionToken.Alternate tokens)
    (hne : tokens ≠ []) : unitFacts owner (UnionToken.line tokens) = [] := by
  have hat : (UnionToken.line tokens).head? ≠ some '@' :=
    UnionToken.head?_line_ne (by decide) (by decide) (by decide)
  rw [unitFacts_of_tidy (UnionToken.tidy_line hne) hat]
  cases tokens with
  | nil => exact absurd rfl hne
  | cons first backs =>
      cases first with
      | bar =>
          rw [UnionToken.line_cons]
          show bareFacts owner (dropLeading modifiers ('|' :: _)) = []
          rw [dropLeading_bar (by decide), bareFacts_bar]
      | operand value =>
          obtain ⟨rest, hline, htrails⟩ := exists_trails value h
          rw [hline]
          rcases htrails.dropLeading_cases value.head.first (show "" ∉ modifiers by decide) with
            hsame | ⟨more, hbar⟩
          · rw [hsame, htrails.bareFacts_eq_nil]
          · rw [hbar, bareFacts_bar]

/-! ## Members -/

/-- What stands between two tokens of a union. -/
inductive Gap where
  | space
  | lineBreak

/-- A gap as it is written. -/
def Gap.char : Gap → Char
  | space => ' '
  | lineBreak => '\n'

/-- Tokens as they are written, each behind its gap. -/
def spread (tokens : List (Gap × UnionToken)) : Text :=
  tokens.flatMap fun token => token.1.char :: token.2.text

/-- The tokens up to the first line break. -/
def firstTokens : List (Gap × UnionToken) → List UnionToken
  | (.space, token) :: rest => token :: firstTokens rest
  | _ => []

/-- A name and some tokens as its annotation, on one line. -/
def annotatedLine (name : Identifier) (tokens : List UnionToken) : Text :=
  name.chars ++ ':' :: tokens.flatMap fun token => ' ' :: token.text

/-- What a name with some tokens as its annotation tells. -/
def annotationFacts (owner : String) (name : Identifier) (tokens : List UnionToken) : List Fact :=
  if tokens.isEmpty then [] else fieldFacts owner name.chars (UnionToken.line tokens)

/-- The first line is how the annotation begins. -/
theorem exists_firstTokens_append (tokens : List (Gap × UnionToken)) :
    ∃ rest, tokens.map Prod.snd = firstTokens tokens ++ rest := by
  fun_induction firstTokens tokens with
  | case1 token rest ih =>
      obtain ⟨more, hmore⟩ := ih
      exact ⟨more, congrArg (token :: ·) hmore⟩
  | case2 tokens => exact ⟨tokens.map Prod.snd, rfl⟩

/-- If no line breaks, the first line is all of the annotation. -/
theorem firstTokens_of_space {tokens : List (Gap × UnionToken)}
    (h : ∀ token ∈ tokens, token.1 = .space) : firstTokens tokens = tokens.map Prod.snd := by
  induction tokens with
  | nil => exact firstTokens.eq_2 [] nofun
  | cons token rest ih =>
      obtain ⟨hfirst, hrest⟩ := List.forall_mem_cons.mp h
      obtain ⟨gap, token⟩ := token
      obtain rfl : gap = .space := hfirst
      exact congrArg (token :: ·) (ih hrest)

section Spread

variable {shape : Bool} {tokens : List UnionToken}

/-- Bars and operands make one line. -/
theorem isLine_line (hne : tokens ≠ []) : IsLine (UnionToken.line tokens) where
  tidy := UnionToken.tidy_line hne
  nested := UnionToken.nested_line
  whole := ⟨UnionToken.spelled_line.not_mem (by decide) (by decide),
    UnionToken.spelled_line.not_mem (by decide) (by decide)⟩

theorem annotatedLine_eq (name : Identifier) (hne : tokens ≠ []) :
    annotatedLine name tokens = (name.chars ++ [':']) ++ ' ' :: UnionToken.line tokens := by
  cases tokens with
  | nil => exact absurd rfl hne
  | cons first rest =>
      rw [annotatedLine, UnionToken.line_cons, List.flatMap_cons, List.append_assoc]
      rfl

/-- A name with its annotation makes one line. -/
theorem isLine_annotated (name : Identifier) : IsLine (annotatedLine name tokens) := by
  have hbare : IsLine (name.chars ++ [':']) := by
    refine ⟨name.tidy.append (.word (by decide) (forall_chars (by decide))), ?_, ?_⟩
    · have hname : Nested (· ≠ ',') name.chars :=
        (TypeTree.nested_name name).mono fun c hc => ne_of_class hc (by decide)
      exact hname.append (.of_inert (forall_chars (by decide)))
    · have hno : ∀ c, isDollarNameChar c = false → c ≠ ':' → c ∉ name.chars ++ [':'] := by
        intro c hc hcolon
        simp [name.not_mem hc, hcolon]
      exact ⟨hno _ (by decide) (by decide), hno _ (by decide) (by decide)⟩
  cases tokens with
  | nil => exact hbare
  | cons first rest =>
      rw [annotatedLine_eq name (List.cons_ne_nil _ _)]
      exact hbare.spaced (isLine_line (List.cons_ne_nil _ _))

/-- A line that is a name and its annotation is a field, unless nothing follows the colon. -/
theorem unitFacts_annotated (name : Identifier) :
    unitFacts owner (annotatedLine name tokens) = annotationFacts owner name tokens := by
  refine (unitFacts_named name (isLine_annotated name).tidy).trans ?_
  cases tokens with
  | nil => rfl
  | cons first rest =>
      have hline : IsLine (UnionToken.line (first :: rest)) := isLine_line (List.cons_ne_nil _ _)
      have hspaced : ((first :: rest).flatMap fun token => ' ' :: token.text) =
          ' ' :: UnionToken.line (first :: rest) := by
        rw [UnionToken.line_cons]
        rfl
      have hstrip : strip (':' :: ' ' :: UnionToken.line (first :: rest)) =
          ':' :: ' ' :: UnionToken.line (first :: rest) := by
        have htidy : Tidy ([':'] ++ ' ' :: UnionToken.line (first :: rest)) :=
          .space (by decide) (forall_chars (by decide)) hline.tidy
        exact htidy.strip
      have hassign : beforeAssignment (' ' :: UnionToken.line (first :: rest)) =
          ' ' :: UnionToken.line (first :: rest) := by
        have hspace : Nested (· ≠ ',') [' '] := .of_inert (forall_chars (by decide))
        exact beforeAssignment_level (hspace.append hline.nested).level
      unfold valueFacts
      rw [hspaced, hstrip]
      simp only [hassign, hline.tidy.collapse_space]
      rw [if_neg (by simpa using hline.tidy.ne_nil)]
      rfl

/-- Behind a line of a union, the rest of it tells nothing. -/
theorem memberFacts_spread (hne : tokens ≠ []) {rest : List (Gap × UnionToken)}
    (h : UnionToken.Alternate (tokens ++ rest.map Prod.snd)) (after : Text) :
    memberFacts owner shape (UnionToken.line tokens ++ (spread rest ++ ';' :: after)) =
      memberFacts owner shape after := by
  -- the line that is being read grows until the next break
  induction rest generalizing tokens with
  | nil =>
      rw [List.map_nil, List.append_nil] at h
      rw [spread, List.flatMap_nil, List.nil_append,
        memberFacts_line (isLine_line hne) owner (Or.inr rfl), unitFacts_line h hne, List.nil_append]
  | cons token rest ih =>
      obtain ⟨gap, token⟩ := token
      cases gap with
      | space =>
          have hgrown : UnionToken.line tokens ++ (spread ((.space, token) :: rest) ++ ';' :: after) =
              UnionToken.line (tokens ++ [token]) ++ (spread rest ++ ';' :: after) := by
            rw [UnionToken.line_concat hne]
            simp [spread, Gap.char]
          rw [hgrown]
          exact ih (by simp) (by simpa using h)
      | lineBreak =>
          have hcut : UnionToken.line tokens ++
              (spread ((.lineBreak, token) :: rest) ++ ';' :: after) =
              UnionToken.line tokens ++ '\n' :: (UnionToken.line [token] ++
                (spread rest ++ ';' :: after)) := by
            rw [UnionToken.line_singleton]
            simp [spread, Gap.char]
          rw [hcut, memberFacts_line (isLine_line hne) owner (Or.inl rfl),
            unitFacts_line h.left_of_append hne, List.nil_append]
          exact ih (List.cons_ne_nil _ _) h.right_of_append

/-- A name with a union as its annotation tells what it does up to the first line break. -/
theorem memberFacts_annotated (name : Identifier) {rest : List (Gap × UnionToken)}
    (h : UnionToken.Alternate (tokens ++ rest.map Prod.snd)) (after : Text) :
    memberFacts owner shape (annotatedLine name tokens ++ (spread rest ++ ';' :: after)) =
      annotationFacts owner name (tokens ++ firstTokens rest) ++ memberFacts owner shape after := by
  induction rest generalizing tokens with
  | nil =>
      rw [spread, List.flatMap_nil, List.nil_append,
        memberFacts_line (isLine_annotated name) owner (Or.inr rfl), unitFacts_annotated, firstTokens,
        List.append_nil]
      exact nofun
  | cons token rest ih =>
      obtain ⟨gap, token⟩ := token
      cases gap with
      | space =>
          -- the token goes to the line that is read, and the induction goes on with it
          have hgrown : annotatedLine name tokens ++
              (spread ((.space, token) :: rest) ++ ';' :: after) =
              annotatedLine name (tokens ++ [token]) ++ (spread rest ++ ';' :: after) := by
            simp [annotatedLine, spread, Gap.char]
          rw [hgrown, ih (by simpa using h), firstTokens]
          simp
      | lineBreak =>
          -- the line ends here, and the lines of the rest tell nothing
          have hcut : annotatedLine name tokens ++
              (spread ((.lineBreak, token) :: rest) ++ ';' :: after) =
              annotatedLine name tokens ++ '\n' :: (UnionToken.line [token] ++
                (spread rest ++ ';' :: after)) := by
            rw [UnionToken.line_singleton]
            simp [spread, Gap.char]
          rw [hcut, memberFacts_line (isLine_annotated name) owner (Or.inl rfl), unitFacts_annotated,
            memberFacts_spread (List.cons_ne_nil token []) h.right_of_append, firstTokens,
            List.append_nil]
          exact nofun

end Spread

/-- A member whose annotation is a union of two operands or more. Each operand and each bar may stand
on a line of its own. -/
structure UnionMember where
  name : Identifier
  /-- What stands before a leading bar, if there is one. -/
  lead : Option Gap := none
  /-- What stands before the first operand. -/
  gap : Gap := .space
  first : Operand
  /-- The further operands, each with what stands before and behind its bar. -/
  others : List (Gap × Gap × Operand)
  several : others ≠ [] := by simp

namespace UnionMember

variable (member : UnionMember)

/-- The bars and operands of the annotation, each with the gap before it. -/
def tokens : List (Gap × UnionToken) :=
  (member.lead.map fun gap => (gap, .bar)).toList ++ (member.gap, .operand member.first) ::
    member.others.flatMap fun other => [(other.1, .bar), (other.2.1, .operand other.2.2)]

/-- The operands of the annotation. -/
def operands : List Operand := member.first :: member.others.map fun other => other.2.2

/-- A member as it is written. -/
def text : Text := member.name.chars ++ ':' :: (spread member.tokens ++ [';'])

/-- The member with all of its annotation on one line. -/
def joined : UnionMember where
  name := member.name
  lead := member.lead.map fun _ => .space
  first := member.first
  others := member.others.map fun other => (.space, .space, other.2.2)
  several := by simpa using member.several

/-- The bars and operands on the line of the name. -/
def firstLine : List UnionToken := firstTokens member.tokens

/-- The member if it ended with its first line. -/
def cut : Text := annotatedLine member.name member.firstLine ++ [';']

/-- The bars and operands of a member alternate. -/
theorem alternate : UnionToken.Alternate (member.tokens.map Prod.snd) := by
  have hothers : ∀ (others : List (Gap × Gap × Operand)) (first : Operand),
      UnionToken.Alternate (.operand first :: (others.flatMap fun other =>
        [(other.1, UnionToken.bar), (other.2.1, .operand other.2.2)]).map Prod.snd) := by
    intro others
    induction others with
    | nil => exact fun first => List.isChain_singleton _
    | cons other rest ih =>
        intro first
        exact .cons_cons (Or.inr rfl) (.cons_cons (Or.inl rfl) (ih other.2.2))
  rw [tokens, List.map_append]
  cases member.lead with
  | none => exact hothers member.others member.first
  | some gap => exact .cons_cons (Or.inl rfl) (hothers member.others member.first)

/-- The operands of a member, in the order in which they are written. -/
theorem operands_tokens : UnionToken.operands (member.tokens.map Prod.snd) = member.operands := by
  have hothers : ∀ others : List (Gap × Gap × Operand),
      UnionToken.operands ((others.flatMap fun other =>
        [(other.1, UnionToken.bar), (other.2.1, .operand other.2.2)]).map Prod.snd) =
          others.map fun other => other.2.2 := by
    intro others
    induction others with
    | nil => rfl
    | cons other rest ih => exact congrArg (other.2.2 :: ·) ih
  rw [tokens, List.map_append, operands, ← hothers]
  cases member.lead <;> rfl

/-- The bars and operands of the first line alternate too. -/
theorem alternate_firstLine : UnionToken.Alternate member.firstLine := by
  obtain ⟨rest, hrest⟩ := exists_firstTokens_append member.tokens
  have hall := member.alternate
  rw [hrest] at hall
  exact hall.left_of_append

/-- What stands on the first line is part of the annotation. -/
theorem operands_firstLine_subset : UnionToken.operands member.firstLine ⊆ member.operands := by
  obtain ⟨rest, hrest⟩ := exists_firstTokens_append member.tokens
  rw [← member.operands_tokens, hrest, UnionToken.operands, UnionToken.operands,
    List.filterMap_append]
  exact List.subset_append_left _ _

/-- On one line, a member has the same operands. -/
theorem operands_joined : member.joined.operands = member.operands := by
  simp [operands, joined]

/-- On one line, all tokens are on the first. -/
theorem firstLine_joined : member.joined.firstLine = member.joined.tokens.map Prod.snd := by
  refine firstTokens_of_space fun token htoken => ?_
  simp only [tokens, joined, List.mem_append, Option.mem_toList, Option.map_map, Option.map_eq_some_iff,
    List.mem_cons, List.flatMap_map, List.mem_flatMap, List.not_mem_nil, or_false] at htoken
  rcases htoken with ⟨gap, _, rfl⟩ | rfl | ⟨other, _, rfl | rfl⟩ <;> rfl

/-- On one line, no annotation is empty. -/
theorem firstLine_joined_ne_nil : member.joined.firstLine ≠ [] := by
  rw [firstLine_joined, tokens]
  simp

/-- The names that a member on one line uses are those of its operands. -/
theorem mem_lineUsed_joined {used : String} :
    used ∈ UnionToken.lineUsed member.joined.firstLine ↔
      ∃ operand ∈ member.operands, used ∈ operand.used := by
  have hoperands : UnionToken.operands member.joined.firstLine = member.operands := by
    rw [firstLine_joined, operands_tokens, operands_joined]
  obtain ⟨second, more, hothers⟩ := List.exists_cons_of_ne_nil member.several
  have hmany : member.operands =
      member.first :: second.2.2 :: more.map fun other => other.2.2 := by
    rw [operands, hothers, List.map_cons]
  rw [UnionToken.lineUsed, hoperands, hmany]
  exact List.mem_flatMap

/-- A member whose annotation goes over several lines tells what its first line does. -/
theorem memberFacts_text {shape : Bool} (after : Text) :
    memberFacts owner shape (member.text ++ after) =
      annotationFacts owner member.name member.firstLine ++ memberFacts owner shape after := by
  have htext : member.text ++ after =
      annotatedLine member.name [] ++ (spread member.tokens ++ ';' :: after) := by
    simp [text, annotatedLine]
  rw [htext, memberFacts_annotated member.name member.alternate, List.nil_append]
  rfl

/-- What a member tells that ends with its first line. -/
theorem memberFacts_cut {shape : Bool} (after : Text) :
    memberFacts owner shape (member.cut ++ after) =
      annotationFacts owner member.name member.firstLine ++ memberFacts owner shape after := by
  rw [cut, List.append_assoc, List.singleton_append,
    memberFacts_line (isLine_annotated member.name) owner (Or.inr rfl), unitFacts_annotated]

end UnionMember

/-! ## Entities -/

/-- The model after the members of a body have been told of an entity. -/
def readMembers (owner : String) (shape : Bool) (body : Text) (model : Model) : Model :=
  model.tell .typeScript (memberFacts owner shape body)

/-- What facts offer to their owner. -/
def offersOf (owner : String) (facts : List Fact) : List Feature :=
  facts.filterMap (Fact.offerTo? owner)

/-- Reading members gives their owner what the facts offer, in order. -/
theorem find?_readMembers {model : Model} {entity : Entity} (hfind : model.find? owner = some entity)
    (shape : Bool) (body : Text) :
    (readMembers owner shape body model).find? owner =
      some (entity.gainAll (offersOf owner (memberFacts owner shape body))) :=
  Model.find?_applyAll_about hfind (allAbout_memberFacts owner shape body) .typeScript

theorem offersOf_append (facts others : List Fact) :
    offersOf owner (facts ++ others) = offersOf owner facts ++ offersOf owner others :=
  List.filterMap_append

section Offers

variable (owner) (name : Identifier) {tokens : List UnionToken}

/-- An annotation offers a field and the names that its line uses, if there is one. -/
theorem offersOf_annotationFacts :
    offersOf owner (annotationFacts owner name tokens) =
      if tokens.isEmpty then []
      else .field ⟨name.name, String.ofList (UnionToken.line tokens)⟩ ::
        (Dialect.typeScript.usedNames (UnionToken.line tokens)).map .dependency := by
  unfold annotationFacts
  split
  · rfl
  · have huses : offersOf owner (usesOf owner (UnionToken.line tokens)) =
        (Dialect.typeScript.usedNames (UnionToken.line tokens)).map .dependency := by
      rw [offersOf, usesOf, Fact.usesOf, List.filterMap_map, ← List.filterMap_eq_map]
      refine List.filterMap_congr fun used _ => ?_
      simp [Fact.offerTo?, Fact.feature?]
    rw [← huses]
    simp [offersOf, fieldFacts, Fact.ofField, usesOf, Fact.offerTo?, Fact.feature?, Identifier.name]

/-- An annotation offers no base and no interface. -/
theorem not_related_offersOf (other : String) :
    Feature.base other ∉ offersOf owner (annotationFacts owner name tokens) ∧
      Feature.interface other ∉ offersOf owner (annotationFacts owner name tokens) := by
  rw [offersOf_annotationFacts]
  split <;> simp

/-- The dependencies that an annotation on one line offers. -/
theorem dependency_mem_offersOf (h : UnionToken.Alternate tokens) {used : String} :
    Feature.dependency used ∈ offersOf owner (annotationFacts owner name tokens) ↔
      used ∈ UnionToken.lineUsed tokens ∧ Dialect.typeScript.isPrimitive used = false := by
  rw [offersOf_annotationFacts]
  cases tokens with
  | nil => simp [UnionToken.lineUsed, UnionToken.operands]
  | cons first rest =>
      have hnames := UnionToken.mem_names_line h (List.cons_ne_nil _ _)
        (UnionToken.tidy_line (List.cons_ne_nil _ _)).strip used
      simp only [List.isEmpty_cons, Bool.false_eq_true, if_false, List.mem_cons, reduceCtorEq,
        false_or, List.mem_map, Feature.dependency.injEq, exists_eq_right, Dialect.usedNames,
        List.mem_filter, ← NameSet.mem_def, Dialect.nameSet, NameSet.mem_ofList, Bool.not_eq_true',
        ← hnames]

/-- An annotation offers a field of its name, unless it is empty. -/
theorem name_mem_fields_offersOf :
    name.name ∈ ((offersOf owner (annotationFacts owner name tokens)).filterMap
      Entity.fieldOf?).map Field.name ↔ tokens ≠ [] := by
  rw [offersOf_annotationFacts]
  cases tokens with
  | nil => simp
  | cons first rest => simp [Entity.fieldOf?]

end Offers

section Body

variable {shape : Bool} {before : Text} (hbefore : Divides shape before) (member : UnionMember)
  (after : Text)
include hbefore

/-- Around a member that is left out, the others offer the same. -/
theorem offersOf_without :
    offersOf owner (memberFacts owner shape (before ++ after)) =
      offersOf owner (memberFacts owner shape before) ++
        offersOf owner (memberFacts owner shape after) := by
  rw [hbefore.memberFacts_append, offersOf_append]

/-- What a body offers besides a member does not depend on how that is broken into lines. -/
theorem offersOf_union :
    offersOf owner (memberFacts owner shape (before ++ (member.text ++ after))) =
      offersOf owner (memberFacts owner shape before) ++
        (offersOf owner (annotationFacts owner member.name member.firstLine) ++
          offersOf owner (memberFacts owner shape after)) := by
  rw [hbefore.memberFacts_append, member.memberFacts_text, offersOf_append, offersOf_append]

/-- A member adds what its first line uses to the dependencies, as far as that can be one. -/
theorem mem_dependencies_union {entity : Entity} (hsound : entity.Sound) {used : String} :
    used ∈ (entity.gainAll (offersOf owner
        (memberFacts owner shape (before ++ (member.text ++ after))))).dependencies ↔
      used ∈ (entity.gainAll (offersOf owner
          (memberFacts owner shape (before ++ after)))).dependencies ∨
        (used ∈ UnionToken.lineUsed member.firstLine ∧
          Dialect.typeScript.isPrimitive used = false) ∧
        entity.isOther used = true ∧
        used ∉ (entity.gainAll (offersOf owner (memberFacts owner shape (before ++ after)))).bases ∧
        used ∉ (entity.gainAll (offersOf owner
          (memberFacts owner shape (before ++ after)))).interfaces := by
  rw [offersOf_union hbefore, offersOf_without hbefore,
    Entity.mem_dependencies_gainAll_among hsound (not_related_offersOf owner member.name),
    dependency_mem_offersOf owner member.name member.alternate_firstLine]

end Body

/-- A member whose annotation is a union over several lines is read as if it ended with its first line.
It is recorded unless nothing but its name stands there, and the dependencies are those of the same
member on one line exactly if what the operands on further lines use is used by the first line or
elsewhere. -/
theorem readMembers_union {shape : Bool} {before : Text} (hbefore : Divides shape before)
    (member : UnionMember) (after : Text) {model : Model} (hmodel : model.Sound)
    (howner : owner ∈ model.names) :
    readMembers owner shape (before ++ (member.text ++ after)) model =
        readMembers owner shape (before ++ (member.cut ++ after)) model ∧
      ∃ joined broken without : Entity,
        (readMembers owner shape (before ++ (member.joined.text ++ after)) model).find? owner =
          some joined ∧
        (readMembers owner shape (before ++ (member.text ++ after)) model).find? owner =
          some broken ∧
        (readMembers owner shape (before ++ after) model).find? owner = some without ∧
        member.name.name ∈ joined.fields.map Field.name ∧
        (member.name.name ∈ broken.fields.map Field.name ↔
          member.firstLine ≠ [] ∨ member.name.name ∈ without.fields.map Field.name) ∧
        (broken.dependencies = joined.dependencies ↔
          ∀ operand ∈ member.operands, ∀ used ∈ operand.used, used ∈ joined.dependencies →
            used ∈ without.dependencies ∨ used ∈ UnionToken.lineUsed member.firstLine) := by
  obtain ⟨entity, hfind⟩ : ∃ entity, model.find? owner = some entity :=
    Option.isSome_iff_exists.mp (Model.contains_iff.mpr howner)
  have hsound := hmodel.of_find? hfind
  have hcut : memberFacts owner shape (before ++ (member.text ++ after)) =
      memberFacts owner shape (before ++ (member.cut ++ after)) := by
    rw [hbefore.memberFacts_append, hbefore.memberFacts_append, member.memberFacts_text,
      member.memberFacts_cut]
  refine ⟨by rw [readMembers, hcut, readMembers], _, _, _, find?_readMembers hfind _ _,
    find?_readMembers hfind _ _, find?_readMembers hfind _ _, ?_, ?_, ?_⟩
  · rw [offersOf_union hbefore, Entity.mem_fields_gainAll_among]
    exact Or.inr ((name_mem_fields_offersOf owner member.joined.name).mpr
      member.firstLine_joined_ne_nil)
  · rw [offersOf_union hbefore, offersOf_without hbefore, Entity.mem_fields_gainAll_among,
      name_mem_fields_offersOf, or_comm]
  -- the joined member uses what all operands use, the broken one what the first line uses
  · rw [NameSet.ext_iff]
    simp only [mem_dependencies_union hbefore _ after hsound, member.mem_lineUsed_joined]
    constructor
    · intro hsame operand hoperand used hused hjoined
      exact ((hsame used).mpr hjoined).imp_right fun hline => hline.1.1
    · intro hused used
      constructor
      · rintro (hwithout | ⟨⟨hline, hprimitive⟩, hother⟩)
        · exact Or.inl hwithout
        · obtain ⟨operand, hoperand, hname⟩ := UnionToken.mem_used_of_mem_lineUsed hline
          exact Or.inr ⟨⟨⟨operand, member.operands_firstLine_subset hoperand, hname⟩, hprimitive⟩,
            hother⟩
      · rintro (hwithout | ⟨⟨⟨operand, hoperand, hname⟩, hprimitive⟩, hother⟩)
        · exact Or.inl hwithout
        · exact (hused operand hoperand used hname
            (Or.inr ⟨⟨⟨operand, hoperand, hname⟩, hprimitive⟩, hother⟩)).imp_right
              fun hline => ⟨⟨hline, hprimitive⟩, hother⟩

/-- The members before a union, one of them over two lines. -/
def parcelFront : Text := "\n  size: \x7b width: number\n    depth: number \x7d;".toList

/-- A member broken before its first bar and behind its second. -/
def parcelItem : UnionMember where
  name := { chars := "item".toList }
  first := { head := { first := { chars := "Book".toList } } }
  others := [
    (.lineBreak, .space,
      { head := { first := { chars := "Map".toList } }
        args := [.named { first := { chars := "Film".toList } }] }),
    (.space, .lineBreak, { head := { first := { chars := "Disc".toList } } })]

theorem readMembers_union_parcel :
    parcelItem.text = "item: Book\n| Map<Film> |\nDisc;".toList ∧
      Divides true (parcelFront ++ ['\n'] ++ [' ', ' ']) ∧
      readMembers "Parcel" true
          (parcelFront ++ ['\n'] ++ [' ', ' '] ++ (parcelItem.text ++ "\n".toList))
          (Model.empty.declare "Parcel" .interface) =
        readMembers "Parcel" true
          (parcelFront ++ ['\n'] ++ [' ', ' '] ++ (parcelItem.cut ++ "\n".toList))
          (Model.empty.declare "Parcel" .interface) := by
  have hfront : Divides true (parcelFront ++ ['\n'] ++ [' ', ' ']) :=
    (divides_unquoted (forall_chars (by decide)) (by decide)).append (divides_spaces 2)
  exact ⟨by decide, hfront, (readMembers_union hfront parcelItem "\n".toList
    (Model.sound_empty.declare "Parcel" .interface) (by decide)).1⟩

/-- Fields and dependencies of an interface in a source. -/
def parcelIn (source : String) : Option (List Field × List String) :=
  ((Model.empty.applyAll ((facts source.toList).map (Finding.mk .typeScript))).find? "Parcel").map
    fun entity => (entity.fields, entity.dependencies.toList)

/-- A line break before a bar takes the operands behind it away, and one before a leading bar the whole
member. -/
theorem parcel_union_cut :
    parcelIn "interface Parcel \x7b\n  item: Book | Film;\n\x7d\n" =
        some ([⟨"item", "Book | Film"⟩], ["Book", "Film"]) ∧
      parcelIn "interface Parcel \x7b\n  item: Book\n| Film;\n\x7d\n" =
        some ([⟨"item", "Book"⟩], ["Book"]) ∧
      parcelIn "interface Parcel \x7b\n  item:\n| Book | Film;\n\x7d\n" = some ([], []) := by
  decide +kernel

end TypeScript

end ClassDiagram
