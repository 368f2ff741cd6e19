import ClassDiagram.Proofs.Reading.PythonJoin
import ClassDiagram.Proofs.Rendered.PythonDefault

/-!
# Types before default values

The type of a field or parameter with a default value stands before the equals sign. That sign is
searched for outside of all brackets by a search that knows no literals, although literals may stand
in the type. So what is taken for the type is the type exactly if a reader that does not know literals
finds no assignment in it and comes out of it at the depth at which it went in.

* `Text.depthBehind?`: where such a reader comes out.
* `Defaulted.type_eq_iff`: when the type is read as it is written.
* `Defaulted.bodyStatementFacts_text`, `Defaulted.parameter?_text`: what a field and a parameter
  tell.
* `facts_defaulted`: both in any source in which the body of a class is open.
-/

namespace ClassDiagram

namespace Text

/-! ## A search that knows no literals -/

/-- How deep a text leads a reader that knows no literals; nowhere if it finds a plain assignment
outside of all brackets on its way. -/
def depthBehind? (depth : Nat) (previous : Option Char) : Text → Option Nat
  | [] => some depth
  | c :: rest =>
    if depth = 0 ∧ isAssignment previous (c :: rest) then none
    else depthBehind? (Brackets.all.depthAfter depth (previous == some '=') c) (some c) rest

section Search

variable {depth : Nat} {previous : Option Char} {text : Text}

/-- A space behind a text does not change what is an assignment in it. -/
theorem isAssignment_append_space (c : Char) (text rest : Text) :
    isAssignment previous (c :: (text ++ ' ' :: rest)) = isAssignment previous (c :: text) := by
  cases text with
  | nil => simp [isAssignment]
  | cons d others => rfl

/-- A search goes on behind a text that holds no assignment. -/
theorem topLevelFrom?_of_depthBehind? {behind : Nat}
    (h : depthBehind? depth previous text = some behind) (rest : Text) :
    topLevelFrom? ['='] depth previous (text ++ ' ' :: rest) =
      (topLevelFrom? ['='] behind (text.getLast?.or previous) (' ' :: rest)).map
        (· + text.length) := by
  induction text generalizing depth previous with
  | nil =>
      cases h
      simp
  | cons c others ih =>
      rw [depthBehind?] at h
      split at h
      · exact absurd h (by simp)
      · rename_i hno
        -- whether an equals sign assigns is seen from the next character, and a space follows
        have hstands : ¬(depth = 0 ∧
            standsAt ['='] previous (c :: (others ++ ' ' :: rest)) = true) := by
          rwa [standsAt, if_pos rfl, isAssignment_append_space]
        rw [List.cons_append, topLevelFrom?, if_neg hstands]
        dsimp only
        rw [ih h, getLast?_or_cons]
        exact map_add_add _ _ _ _ rfl

/-- A search ends in a text that holds an assignment. -/
theorem exists_topLevelFrom?_of_depthBehind? (h : depthBehind? depth previous text = none)
    (rest : Text) :
    ∃ place < text.length, topLevelFrom? ['='] depth previous (text ++ ' ' :: rest) =
      some place := by
  induction text generalizing depth previous with
  | nil => exact absurd h (by simp [depthBehind?])
  | cons c others ih =>
      rw [depthBehind?] at h
      have hsame : standsAt ['='] previous (c :: (others ++ ' ' :: rest)) =
          isAssignment previous (c :: others) := by
        rw [standsAt, if_pos rfl, isAssignment_append_space]
      rw [List.cons_append, topLevelFrom?, hsame]
      split at h
      · rename_i hfound
        exact ⟨0, Nat.succ_pos _, if_pos hfound⟩
      · rename_i hno
        obtain ⟨place, hplace, hfound⟩ := ih h
        refine ⟨place + 1, Nat.succ_lt_succ hplace, ?_⟩
        rw [if_neg hno]
        dsimp only
        rw [hfound]
        rfl

/-- Behind a space the search is as at the start. -/
theorem topLevelFrom?_space (depth : Nat) (text : Text) :
    topLevelFrom? ['='] depth (some ' ') text = topLevelFrom? ['='] depth none text := by
  cases text with
  | nil => rfl
  | cons c rest => rfl

/-- Balanced text before a space does not matter to the search. -/
theorem beforeAssignment_append {brackets : Brackets} {top : Char → Prop} {front : Text}
    (h : Balanced brackets top (front ++ [' '])) (text : Text) :
    beforeAssignment (front ++ ' ' :: text) = front ++ ' ' :: beforeAssignment text := by
  have hfrom : topLevelFrom? ['='] 0 none (front ++ [' '] ++ text) =
      (topLevelFrom? ['='] 0 none text).map (· + (front.length + 1)) := by
    rw [topLevelFrom?_balanced h (fun _ => passes_assignment top) (by decide),
      List.getLast?_concat, Option.some_or, topLevelFrom?_space, List.length_append]
    rfl
  have hsplit : front ++ ' ' :: text = front ++ [' '] ++ text := by simp
  -- a balanced front adds nothing to find, so that the place is moved by its length
  have hsearch : topLevel? ['='] (front ++ [' '] ++ text) =
      (topLevel? ['='] text).map (· + (front.length + 1)) := by
    show (topLevelFrom? ['='] 0 none (front ++ [' '] ++ text)).map (· + 0) =
      ((topLevelFrom? ['='] 0 none text).map (· + 0)).map _
    rw [hfrom, map_add_add _ _ _ _ rfl, map_add_add _ _ _ _ (Nat.zero_add _)]
  rw [hsplit, beforeAssignment, hsearch, beforeAssignment]
  cases topLevel? ['='] text with
  | none => simp
  | some place =>
      show (front ++ [' '] ++ text).take (place + (front.length + 1)) = _
      rw [show place + (front.length + 1) = (front ++ [' ']).length + place by simp; omega,
        List.take_length_add_append]
      simp

/-- What does not start with an equals sign keeps its start. -/
theorem exists_beforeAssignment_cons {c : Char} (hc : c ≠ '=') (rest : Text) :
    ∃ tail, beforeAssignment (c :: rest) = c :: tail := by
  have hstep : topLevel? ['='] (c :: rest) =
      (topLevelFrom? ['='] (Brackets.all.depthAfter 0 false c) (some c) rest).map (· + 1) := by
    have hno : standsAt ['='] none (c :: rest) = false := by simp [standsAt, isAssignment, hc]
    show (topLevelFrom? ['='] 0 none (c :: rest)).map (· + 0) = _
    rw [topLevelFrom?_cons fun _ => hno, map_add_add _ _ _ _ rfl]
    rfl
  rw [beforeAssignment, hstep]
  cases topLevelFrom? ['='] (Brackets.all.depthAfter 0 false c) (some c) rest with
  | none => exact ⟨rest, rfl⟩
  | some place => exact ⟨rest.take place, rfl⟩

end Search

end Text

namespace Python

open Text

/-! ## Declarations with default values -/

/-- A name with a hint and a number as its value. -/
structure Defaulted where
  name : Ident paramWords
  hint : LiteralHint
  value : Numeral

namespace Defaulted

variable (declared : Defaulted)

/-- A declaration as an entry of a parameter list. -/
def entry : Entry where
  front := declared.name.chars
  hint := some declared.hint
  value := some declared.value
  isFront := by
    have hne := declared.name.ne_nil
    have hchars : declared.name.chars.all isEntryChar = true :=
      List.all_eq_true.mpr fun c hc => by
        rw [isEntryChar, declared.name.identChar c hc]
        rfl
    rw [hchars, Bool.and_true]
    simpa using hne

/-- A declaration as it is written. -/
def text : Text := declared.entry.text

/-- The hint and the value behind it. -/
def valued : Text := declared.hint.written ++ defaultText (some declared.value)

/-- What is taken for the type. -/
def type : Text := collapse (beforeAssignment declared.valued)

theorem text_eq : declared.text = (declared.name.chars ++ [':']) ++ ' ' :: declared.valued := by
  rw [text, entry, Entry.text, valued, List.append_assoc]
  rfl

/-- A hint with its default is tidy. -/
theorem tidy_valued : Tidy declared.valued := by
  have hsign : Tidy ['='] := .word (by decide) (forall_chars (by decide))
  have hnumber : Tidy declared.value.chars := .word declared.value.ne_nil fun c hc =>
    not_blank_of_identChar (declared.value.identChar c hc)
  exact declared.hint.tidy.spaced (hsign.spaced hnumber)

theorem tidy : Tidy declared.text := declared.entry.tidy

/-- A declaration with a default stays in its line. -/
theorem staysInLine : StaysInLine declared.text := by
  have hname : StaysInLine declared.name.chars :=
    staysInLine_word declared.name.spelled
  have hcolon : StaysInLine [':', ' '] := staysInLine_word (.of_all (by decide))
  have hvalue : StaysInLine (' ' :: '=' :: ' ' :: declared.value.chars) :=
    .cons (by decide) (fun _ => rfl) (.cons (by decide) (fun _ => rfl) (.cons (by decide)
      (fun _ => rfl) (staysInLine_word (.of_letters declared.value.identChar))))
  have hall := hname.append (hcolon.append (declared.hint.staysUpTo.shielded (by decide) hvalue))
  rw [text_eq, valued, List.append_assoc]
  exact hall

/-- Outside of brackets, the sign before the value is found. -/
theorem topLevelFrom?_value_zero (previous : Option Char) (rest : Text) :
    topLevelFrom? ['='] 0 previous (' ' :: '=' :: ' ' :: rest) = some 1 := by
  have hspace : standsAt ['='] previous (' ' :: '=' :: ' ' :: rest) = false := by
    simp [standsAt, isAssignment]
  rw [topLevelFrom?_cons fun _ => hspace, depthAfter_of_inert (by decide), topLevelFrom?,
    if_pos ⟨rfl, rfl⟩]
  rfl

/-- Inside of brackets, it is not. -/
theorem topLevelFrom?_value_succ (depth : Nat) (previous : Option Char) :
    topLevelFrom? ['='] (depth + 1) previous (' ' :: '=' :: ' ' :: declared.value.chars) =
      none := by
  have hdeep : ∀ {p : Prop}, depth + 1 = 0 → p := fun h => absurd h (Nat.succ_ne_zero _)
  have hvalue : Balanced lineBrackets (fun _ => True) declared.value.chars :=
    .of_ordinary fun c hc => ⟨isOrdinary_of_identChar (declared.value.identChar c hc), trivial⟩
  have hnone : topLevelFrom? ['='] (depth + 1) (some ' ') (declared.value.chars ++ []) = none :=
    topLevelFrom?_balanced hvalue hdeep (by decide) []
  rw [List.append_nil] at hnone
  rw [topLevelFrom?_cons hdeep, depthAfter_of_inert (by decide), topLevelFrom?_cons hdeep,
    depthAfter_equals, topLevelFrom?_cons hdeep, depthAfter_of_inert (by decide), hnone]
  rfl

/-- The type is read as it is written exactly if a reader that knows no literals passes it without
an assignment and comes out where it went in. -/
theorem type_eq_iff :
    declared.type = declared.hint.written ↔
      depthBehind? 0 none declared.hint.written = some 0 := by
  have hsearch : topLevel? ['='] declared.valued =
      topLevelFrom? ['='] 0 none (declared.hint.written ++ ' ' :: '=' :: ' ' ::
        declared.value.chars) := by
    show (topLevelFrom? ['='] 0 none declared.valued).map (· + 0) = _
    exact Option.map_id'
  cases hdepth : depthBehind? 0 none declared.hint.written with
  | none =>
      -- the search ends too early, and what is left is too short
      obtain ⟨place, hplace, hfound⟩ := exists_topLevelFrom?_of_depthBehind? hdepth
        ('=' :: ' ' :: declared.value.chars)
      refine iff_of_false (fun heq => ?_) (by simp)
      have hshort := length_collapse_le (beforeAssignment declared.valued)
      rw [show collapse (beforeAssignment declared.valued) = declared.hint.written from heq,
        beforeAssignment, hsearch, hfound] at hshort
      have htake := List.length_take_le place declared.valued
      dsimp only at hshort
      omega
  | some depth =>
      have hfrom := topLevelFrom?_of_depthBehind? hdepth ('=' :: ' ' :: declared.value.chars)
      rw [← hsearch] at hfrom
      cases depth with
      | zero =>
          refine iff_of_true ?_ rfl
          have hkept : beforeAssignment declared.valued = declared.hint.written ++ [' '] := by
            rw [beforeAssignment, hfrom, topLevelFrom?_value_zero]
            show declared.valued.take (1 + declared.hint.written.length) = _
            rw [valued, Nat.add_comm, List.take_length_add_append]
            rfl
          rw [type, hkept]
          exact declared.hint.tidy.collapse_before (forall_chars (by decide))
      | succ depth =>
          -- the sign is not found, and the value is taken for a part of the type
          refine iff_of_false (fun heq => ?_) (by simp)
          have hkept : beforeAssignment declared.valued = declared.valued := by
            rw [beforeAssignment, hfrom, declared.topLevelFrom?_value_succ]
            rfl
          rw [type, hkept, declared.tidy_valued.collapse] at heq
          have hlength := congrArg List.length heq
          rw [valued, List.length_append, defaultText, List.length_cons] at hlength
          omega

/-- Without brackets and equals signs in its literals, the type is read as it is written. -/
theorem type_eq_of_inert
    (h : ∀ value, .literal value ∈ declared.hint.leaves → ∀ c ∈ value.inner, isInert c = true) :
    declared.type = declared.hint.written := by
  have hlevel : Text.Level lineBrackets (fun _ => True)
      ((declared.hint.written ++ [' ']).map Piece.char) := by
    rw [List.map_append]
    exact (declared.hint.level_chars h).append (.char (by decide) trivial .nil)
  have hsign : standsAt ['='] (declared.hint.written ++ [' ']).getLast?
      ('=' :: ' ' :: declared.value.chars) = true := by
    rw [List.getLast?_concat]
    rfl
  -- no bracket and no equals sign in a literal misleads the search, so it ends at the default
  have hfound := topLevel?_level_append hlevel (passes_assignment _) hsign
  have hsplit : declared.valued =
      declared.hint.written ++ [' '] ++ '=' :: ' ' :: declared.value.chars := by
    rw [valued, List.append_assoc]
    rfl
  rw [type, hsplit, beforeAssignment, hfound]
  show collapse (List.take (declared.hint.written ++ [' ']).length _) = _
  rw [List.take_left]
  exact declared.hint.tidy.collapse_before (forall_chars (by decide))

/-- What is left before the assignment starts as the hint does. -/
theorem exists_beforeAssignment_valued :
    ∃ c tail, beforeAssignment declared.valued = c :: tail ∧ isBlank c = false := by
  obtain ⟨c, rest, hhint, hc⟩ := declared.hint.exists_head
  have hblank : isBlank c = false := declared.hint.tidy.head_not_blank (by rw [hhint]; rfl)
  obtain ⟨tail, htail⟩ :=
    exists_beforeAssignment_cons hc (rest ++ defaultText (some declared.value))
  refine ⟨c, tail, ?_, hblank⟩
  rw [valued, hhint]
  exact htail

/-- The assignment is found behind the colon, wherever the hint is cut. -/
theorem beforeAssignment_text :
    beforeAssignment declared.text =
      (declared.name.chars ++ [':']) ++ ' ' :: beforeAssignment declared.valued := by
  have hname : Balanced lineBrackets (fun _ => True) declared.name.chars :=
    declared.name.balanced fun _ _ => trivial
  have hcolon : Balanced lineBrackets (fun _ => True) [':'] :=
    .of_ordinary (forall_chars (by decide))
  have hspace : Balanced lineBrackets (fun _ => True) [' '] :=
    .of_ordinary (forall_chars (by decide))
  rw [text_eq]
  exact beforeAssignment_append ((hname.append hcolon).append hspace) declared.valued

/-- What the declaration tells in the body of a class: a field of the type that is left. -/
theorem bodyStatementFacts_text (owner : String) :
    bodyStatementFacts owner declared.text =
      fieldFacts owner declared.name.chars declared.type := by
  obtain ⟨c, tail, hbefore, hc⟩ := declared.exists_beforeAssignment_valued
  obtain ⟨kept, hkept⟩ := exists_stripEnd_cons hc tail
  have htarget : strip (beforeAssignment declared.text) =
      declared.name.chars ++ ':' :: ' ' :: c :: kept := by
    have htidy : Tidy (declared.name.chars ++ [':']) :=
      declared.name.tidy.append (.word (by decide) (forall_chars (by decide)))
    have hne : stripEnd (c :: tail) ≠ [] := by simp [hkept]
    rw [declared.beforeAssignment_text, hbefore, strip, htidy.stripStart_append,
      List.append_assoc, ← List.singleton_append (l := c :: tail), ← List.append_assoc,
      ← List.append_assoc, stripEnd_append hne, hkept]
    simp
  have hstart : stripStart (' ' :: c :: kept) = c :: kept := by
    rw [stripStart, List.dropWhile_cons_of_pos (by decide),
      List.dropWhile_cons_of_neg (by simp [hc])]
  have htype : typeBehind? (':' :: ' ' :: c :: kept) = some (c :: kept) := by
    unfold typeBehind?
    rw [show stripStart (':' :: ' ' :: c :: kept) = ':' :: ' ' :: c :: kept from rfl]
    simp only [hstart]
    rfl
  have hannotated : annotated? (declared.name.chars ++ ':' :: ' ' :: c :: kept) =
      some (declared.name.chars, c :: kept) := by
    rw [annotated?, declared.name.name?_append (by decide), Option.bind_some]
    simp only [htype, Option.map_some]
  have hfree : keywords.contains (String.ofList declared.name.chars) = false := by
    have hname : String.ofList declared.name.chars ∉ keywords := fun hmem =>
      declared.name.isFree (List.mem_append_left _ hmem)
    simpa using hname
  -- what is left of the hint is what stands before the equals sign that was found
  have hcollapse : collapse (c :: kept) = declared.type := by
    rw [← hkept, collapse_stripEnd, ← hbefore]
    rfl
  unfold bodyStatementFacts
  simp only [htarget, hannotated, Option.filter_some, hfree]
  exact congrArg (fieldFacts owner declared.name.chars) hcollapse

/-- What the declaration is in a parameter list: a parameter of the type that is left. -/
theorem parameter?_text : parameter? declared.text = some (declared.name.chars, declared.type) := by
  obtain ⟨c, tail, hbefore, hc⟩ := declared.exists_beforeAssignment_valued
  obtain ⟨first, others, hchars, hfirst⟩ := declared.name.starts
  have hsign : ∀ sign, isIdentChar sign = false → declared.text ≠ [sign] := by
    intro sign hno heq
    rw [text_eq, hchars, List.cons_append, List.cons_append] at heq
    injection heq with hhead _
    exact ne_of_identChar hfirst hno hhead
  have hdeclaration : beforeAssignment declared.text =
      declared.name.chars ++ ':' :: ' ' :: beforeAssignment declared.valued := by
    rw [declared.beforeAssignment_text, List.append_assoc]
    rfl
  have hcolon : topLevel? [':'] (declared.name.chars ++ ':' :: ' ' ::
      beforeAssignment declared.valued) = some declared.name.chars.length := by
    have hname : Balanced lineBrackets (fun c => isIdentChar c = true) declared.name.chars :=
      declared.name.balanced fun _ hc => hc
    exact topLevel?_append hname (passes_class (by decide)) rfl
  have htype : collapse ((declared.name.chars ++ ':' :: ' ' ::
      beforeAssignment declared.valued).drop (declared.name.chars.length + 1)) =
      declared.type := by
    rw [← List.drop_drop, List.drop_left]
    exact collapse_space_cons _
  have hstars : declared.name.chars.dropWhile (· == '*') = declared.name.chars := by
    have hstar : first ≠ '*' := ne_of_identChar hfirst (by decide)
    rw [hchars, List.dropWhile_cons_of_neg (by simpa using hstar)]
  have hfree : ¬ (declared.name.chars = "self".toList ∨ declared.name.chars = "cls".toList) := by
    rintro (heq | heq)
    · exact declared.name.chars_ne (by decide) heq
    · exact declared.name.chars_ne (by decide) heq
  -- the hint begins before the equals sign that is found, so that the type is not empty
  have hshown : declared.type.isEmpty = false := by
    obtain ⟨kept, hkept⟩ := exists_collapse_cons hc tail
    rw [type, hbefore, hkept]
    rfl
  unfold parameter?
  rw [if_neg fun h => h.elim (hsign '*' (by decide)) (hsign '/' (by decide))]
  simp only [hdeclaration, hcolon, List.take_left, htype, declared.name.tidy.strip, hstars]
  rw [if_neg hfree, if_neg (by simp [hshown])]

end Defaulted

/-! ## Method headers -/

/-- A method header as it is written up to the parenthesis that closes its parameter list. -/
def methodHead (name : Ident methodWords) (entries : List Entry) : Text :=
  defWord ++ (name.chars ++ '(' :: (entryList entries ++ [')']))

section Headers

variable (name : Ident methodWords) (entries : List Entry)

/-- The head of a method is tidy. -/
theorem tidy_methodHead : Tidy (methodHead name entries) := by
  have hlist : Tidy ('(' :: (entryList entries ++ [')'])) := by
    refine Tidy.listed (by decide) (by decide) fun item hitem => ?_
    obtain ⟨entry, _, rfl⟩ := List.mem_map.mp hitem
    exact entry.tidy
  have hall : Tidy ("def".toList ++ ' ' :: (name.chars ++ '(' :: (entryList entries ++ [')']))) :=
    .space (by decide) (forall_chars (by decide)) (name.tidy.append hlist)
  exact hall

/-- The head of a method stays in its line. -/
theorem staysInLine_methodHead : StaysInLine (methodHead name entries) := by
  have hword : StaysInLine defWord := staysInLine_word (.of_all (by decide))
  have hname : StaysInLine name.chars :=
    staysInLine_word name.spelled
  exact hword.append (hname.append ((staysUpTo_entryList entries).grouped rfl))

/-- The parameter list of a method header, whatever stands behind it. -/
theorem arguments_headerParts (tail : Text) :
    (headerParts ('(' :: (entryList entries ++ ')' :: tail))).arguments = entryList entries := by
  obtain ⟨kept, hkept⟩ := exists_stripEnd_cons (show isBlank ')' = false by decide) tail
  have hstrip : strip ('(' :: (entryList entries ++ ')' :: tail)) =
      '(' :: (entryList entries ++ ')' :: kept) := by
    have hne : stripEnd (')' :: tail) ≠ [] := by simp [hkept]
    rw [strip, stripStart, List.dropWhile_cons_of_neg (by decide), ← List.cons_append,
      stripEnd_append hne, hkept]
    rfl
  have htypes : dropTypeParameters ('(' :: (entryList entries ++ ')' :: kept)) =
      '(' :: (entryList entries ++ ')' :: kept) := by
    rw [dropTypeParameters, if_neg (by simp)]
  have harguments : splitArguments ('(' :: (entryList entries ++ ')' :: kept)) =
      (entryList entries, kept) := by
    rw [splitArguments, List.head?_cons, if_pos rfl, splitGroup_own (own_entryList entries) rfl]
    rfl
  unfold headerParts
  simp only [hstrip, htypes, harguments]
  split <;> rfl

/-- A function header tells what it says itself before what stands behind it on its line. -/
theorem exists_readLine_function {line rest found : Text} {indent : Nat} {scopes : List OpenScope}
    (hclass : classHeader? line = none) (h : functionHeader? line = some (found, rest)) :
    ∃ next more, readLine indent scopes line =
      (next, (openFunction scopes found (headerParts rest)).2 ++ more) := by
  rw [readLine]
  split
  · rename_i hsome
    rw [hclass] at hsome
    exact absurd hsome (by simp)
  · split
    · rename_i hsome
      rw [h] at hsome
      cases hsome
      -- what follows on the line adds facts behind those of the head
      refine List.foldlRecOn (motive := fun read => ∃ next more,
        read = (next, (openFunction scopes found (headerParts rest)).2 ++ more)) _ _ ?_ ?_
      · exact ⟨_, [], Prod.ext rfl (List.append_nil _).symm⟩
      · rintro _ ⟨next, more, rfl⟩ statement _
        exact ⟨_, more ++ _, Prod.ext rfl (List.append_assoc _ _ _)⟩
    · rename_i hnone
      rw [h] at hnone
      exact absurd hnone (by simp)

/-- The types of the parameters among some entries. -/
def entryTypes (entries : List Entry) : List String :=
  (entries.filterMap fun entry => parameter? entry.text).map fun param => String.ofList param.2

/-- A method header directly in the body of a class tells a method with the types of its
parameters, whatever stands behind them. -/
theorem exists_readLine_methodHead {indent : Nat} {scopes : List OpenScope} {owner : String}
    (hscope : scopes.head?.map OpenScope.scope = some (.body owner)) (tail : Text) :
    ∃ next result more, readLine indent scopes (methodHead name entries ++ tail) =
      (next, .method owner ⟨name.name, result, entryTypes entries⟩ :: more) := by
  have hline : methodHead name entries ++ tail =
      defWord ++ (name.chars ++ '(' :: (entryList entries ++ ')' :: tail)) := by
    simp [methodHead]
  have hclass : classHeader? (methodHead name entries ++ tail) = none := by
    refine classHeader?_eq_none ?_
    rw [hline]
    exact show String.ofList "def".toList ≠ "class" by decide
  have hfunction : functionHeader? (methodHead name entries ++ tail) =
      some (name.chars, '(' :: (entryList entries ++ ')' :: tail)) := by
    rw [hline]
    exact functionHeader?_def name (by decide) _
  obtain ⟨next, more, hread⟩ := @exists_readLine_function _ _ _ indent scopes hclass hfunction
  have hinit : name.chars ≠ "__init__".toList := name.chars_ne (by decide)
  rw [hread]
  unfold openFunction
  rw [hscope]
  simp only [arguments_headerParts, parameters_entryList, methodFacts, if_neg hinit,
    List.cons_append, List.map_map]
  exact ⟨next, _, _, rfl⟩

end Headers

/-! ## Sources -/

/-- The scopes in which a line of some indentation behind a text is read. -/
def scopesAt (front : Text) (indent : Nat) : List OpenScope :=
  closeScopes indent (scopesAfter [] (logicalLines front))

/-- Whether a line of some indentation behind a text stands directly in the body of a class. -/
structure OpensBody (front : Text) (indent : Nat) (owner : String) : Prop where
  ends : endsAtBreak front = true
  scope : (scopesAt front indent).head?.map OpenScope.scope = some (.body owner)

/-- A written line whose end is not known is the start of the first logical line. -/
theorem exists_logicalLines_append (indent : Nat) {head : Text} (htidy : Tidy head)
    (hline : StaysInLine head) (behind : Text) :
    ∃ tail others, logicalLines (List.replicate indent ' ' ++ (head ++ behind)) =
      ⟨indent, head ++ tail⟩ :: others := by
  have hraw : rawLines (List.replicate indent ' ' ++ (head ++ behind)) =
      (indent, head ++ (scan 0 behind).1) :: (scan 0 behind).2 := by
    unfold rawLines
    rw [splitIndent_spaces indent htidy]
    simp only [hline 0 _, prepend]
  obtain ⟨tail, htail⟩ := htidy.exists_strip_append (scan 0 behind).1
  have hkept : (head ++ tail).isEmpty = false := by simp [htidy.ne_nil]
  unfold logicalLines
  rw [hraw, List.filterMap_cons]
  simp only [htail, hkept, Bool.false_eq_true, if_false]
  exact ⟨tail, _, rfl⟩

section Sources

variable {front : Text} {indent : Nat} {owner : String} (h : OpensBody front indent owner)

include h

/-- A declaration with a default value in the body of a class is a field of the type that is left. -/
theorem facts_field (declared : Defaulted) (back : Text) :
    facts (front ++ (List.replicate indent ' ' ++ (declared.text ++ '\n' :: back))) =
      facts front ++ (fieldFacts owner declared.name.chars declared.type ++
        factsFrom (scopesAt front indent) (logicalLines back)) := by
  have hline : declared.text = declared.name.chars ++ ':' :: ' ' :: declared.valued := by
    rw [declared.text_eq, List.append_assoc]
    rfl
  have hread : readLine indent (scopesAt front indent) declared.text =
      (scopesAt front indent, fieldFacts owner declared.name.chars declared.type) := by
    rw [← declared.bodyStatementFacts_text, hline,
      readLine_name declared.name (List.subset_append_left _ _) (by decide), statementFacts, h.scope]
  have hstarts : StartsIdent declared.text := by
    rw [hline]
    exact declared.name.starts.append _
  rw [facts, logicalLines_append h.ends, factsFrom_append,
    logicalLines_line indent declared.tidy declared.staysInLine,
    factsFrom_cons hstarts hread]
  rfl

/-- A method has parameters of the types that its entries tell. -/
theorem exists_facts_method (name : Ident methodWords) (entries : List Entry) (behind : Text) :
    ∃ result more,
      facts (front ++ (List.replicate indent ' ' ++ (methodHead name entries ++ behind))) =
        facts front ++ .method owner ⟨name.name, result, entryTypes entries⟩ :: more := by
  obtain ⟨tail, others, hlines⟩ := exists_logicalLines_append indent
    (tidy_methodHead name entries) (staysInLine_methodHead name entries) behind
  obtain ⟨next, result, more, hread⟩ :=
    @exists_readLine_methodHead name entries indent _ owner h.scope tail
  have hstarts : StartsIdent (methodHead name entries ++ tail) := ⟨'d', _, rfl, by decide⟩
  rw [facts, logicalLines_append h.ends, factsFrom_append, hlines, factsFrom_cons hstarts hread]
  exact ⟨result, _, rfl⟩

/-- A name with a hint and a default value, directly in the body of a class: it tells a field, and as
a parameter of a method it tells a parameter, both of one type. This is the hint as it is written
exactly if a reader that knows no literals passes the hint without an assignment and comes out at the
depth at which it went in. So it is if no literal of the hint holds a bracket or an equals sign. -/
theorem facts_defaulted (declared : Defaulted) :
    (∀ back, facts (front ++ (List.replicate indent ' ' ++ (declared.text ++ '\n' :: back))) =
      facts front ++ (fieldFacts owner declared.name.chars declared.type ++
        factsFrom (scopesAt front indent) (logicalLines back))) ∧
    (∀ method before after behind, ∃ result more,
      facts (front ++ (List.replicate indent ' ' ++
          (methodHead method (before ++ declared.entry :: after) ++ behind))) =
        facts front ++ .method owner ⟨method.name, result,
          entryTypes before ++ String.ofList declared.type :: entryTypes after⟩ :: more) ∧
    (declared.type = declared.hint.written ↔
      depthBehind? 0 none declared.hint.written = some 0) ∧
    ((∀ value, .literal value ∈ declared.hint.leaves → ∀ c ∈ value.inner, isInert c = true) →
      declared.type = declared.hint.written) := by
  refine ⟨facts_field h declared, fun method before after behind => ?_, declared.type_eq_iff,
    declared.type_eq_of_inert⟩
  have htypes : entryTypes (before ++ declared.entry :: after) =
      entryTypes before ++ String.ofList declared.type :: entryTypes after := by
    have hparam : parameter? declared.entry.text = some (declared.name.chars, declared.type) :=
      declared.parameter?_text
    rw [entryTypes, List.filterMap_append, List.map_append, List.filterMap_cons, hparam]
    rfl
  rw [← htypes]
  exact exists_facts_method h method (before ++ declared.entry :: after) behind

end Sources

/-- A class whose body is open. -/
def kioskFront : Text := "class Kiosk:\n".toList

/-- A literal with signs that mean something to a scanner, but no bracket and no equals sign. -/
def kioskLiteral : Quotation := { inner := "a,b:'#".toList }

/-- A declaration whose hint holds that literal beside an empty one. -/
def kioskFare : Defaulted where
  name := { chars := "fare".toList }
  hint := .applied { first := { chars := "dict".toList } }
    [.leaf (.literal kioskLiteral), .union (.leaf (.literal { inner := [] }))
      (.leaf (.name { first := { chars := "None".toList } })) []]
  value := { chars := "1_0".toList }

theorem kioskFare_recorded :
    OpensBody kioskFront 4 "Kiosk" ∧
      kioskFare.hint.written = "dict[\"a,b:'#\", \"\" | None]".toList ∧
      kioskFare.type = kioskFare.hint.written ∧
      facts (kioskFront ++ (List.replicate 4 ' ' ++ (kioskFare.text ++ ['\n']))) =
        facts kioskFront ++ (fieldFacts "Kiosk" "fare".toList kioskFare.type ++
          factsFrom (scopesAt kioskFront 4) (logicalLines [])) := by
  have hbody : OpensBody kioskFront 4 "Kiosk" := ⟨by decide +kernel, by decide +kernel⟩
  have hall := facts_defaulted hbody kioskFare
  exact ⟨hbody, by decide +kernel, hall.2.2.1.mpr (by decide +kernel), hall.1 []⟩

/-- A declaration whose hint is a literal with a bracket in it. -/
def kioskLimit : Defaulted where
  name := { chars := "limit".toList }
  hint := .leaf (.literal { inner := "x<y".toList })
  value := { chars := "30".toList }

/-- A declaration whose hint is a literal with an equals sign in it. -/
def kioskUnit : Defaulted where
  name := { chars := "unit".toList }
  hint := .leaf (.literal { inner := "a=b".toList })
  value := { chars := "31".toList }

/-- Behind a bracket in a literal the default value is taken for a part of the type, and an equals
sign in a literal ends the type; for fields as for parameters. -/
theorem kiosk_types_not_read :
    kioskLimit.type ≠ kioskLimit.hint.written ∧ kioskUnit.type ≠ kioskUnit.hint.written ∧
      facts "class Kiosk:\n    limit: \"x<y\" = 30\n    unit: \"a=b\" = 31\n".toList =
        [.declares "Kiosk" .cls "class" none, .field "Kiosk" "limit" "\"x<y\" = 30",
          .field "Kiosk" "unit" "\"a"] ∧
      .method "Kiosk" ⟨"sell", "void", ["\"x<y\" = 30", "\"a"]⟩ ∈
        facts ("class Kiosk:\n    def sell(self, limit: \"x<y\" = 30, unit: \"a=b\" = 31):\n" ++
          "        pass\n").toList := by
  decide +kernel

end Python

end ClassDiagram
