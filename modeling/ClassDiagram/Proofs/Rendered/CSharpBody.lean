import ClassDiagram.Proofs.Reading.HiddenBlocks
import ClassDiagram.Proofs.Rendered.CSharpMember
import ClassDiagram.Proofs.Scan.Indented

/-!
# Written bodies of C# types

A body with one member in a line. Hiding its blocks changes nothing, since they are empty or hold
accessors only; its statements are its members; and the second pass over the lines tells fields and
properties again and nothing else.

* `hideBlocks_body`, `statements_body`: what the passes see.
* `memberFacts_body`: a written body tells exactly its members.
-/

namespace ClassDiagram

namespace CSharp

open Text

/-- What ends the line of a member. -/
def Shape.ending : Shape → Text
  | field => [';']
  | property | method _ => []

namespace Member

/-- The line of a member. -/
def line (member : Member) : Text := member.text ++ member.shape.ending

/-- Whether a member is a field or a property. -/
def isField (member : Member) : Bool :=
  match member.shape with
  | .field | .property => true
  | .method _ => false

/-- What stands before the block of a member, or before its semicolon. -/
def front (member : Member) : Text :=
  modsText member.mods ++ (member.typed.text ++
    match member.shape with
    | .field => []
    | .property => [' ']
    | .method params => '(' :: (join [',', ' '] (params.map Typed.text) ++ [')', ' ']))

end Member

/-- The lines of a body behind the brace that opens it, each behind some spaces. -/
def bodyText (indent : Nat) (members : List Member) : Text :=
  indented indent (members.map Member.line)

/-- A body has one member on each line, behind a margin. -/
theorem bodyText_cons (indent : Nat) (member : Member) (rest : List Member) :
    bodyText indent (member :: rest) =
      ('\n' :: List.replicate indent ' ') ++ (member.line ++ bodyText indent rest) :=
  indented_cons indent member.line (rest.map Member.line)

/-! ## The front of a member -/

/-- Modifiers are written with the characters of typed names. -/
theorem mem_modsText {mods : List Modifier} {c : Char} (h : c ∈ Member.modsText mods) :
    isTypedChar c = true := by
  obtain ⟨word, _, hc⟩ := List.mem_flatMap.mp h
  rcases List.mem_append.mp hc with hc | hc
  · rw [isTypedChar, Nominal.isTypeChar, modifier_word word c hc, Bool.true_or, Bool.true_or]
  · rw [List.mem_singleton.mp hc]
    decide

/-- The characters of a front: only that of a method has parentheses. -/
theorem mem_front {member : Member} {c : Char} (h : c ∈ member.front) :
    isTypedChar c = true ∨ c = ',' ∨
      ((c = '(' ∨ c = ')') ∧ ∃ params, member.shape = .method params) := by
  have htyped : ∀ {typed : Typed}, c ∈ typed.text → isTypedChar c = true ∨ c = ',' ∨
      ((c = '(' ∨ c = ')') ∧ ∃ params, member.shape = .method params) :=
    fun hc => (Typed.spelled _ c hc).imp_right fun h => Or.inl (List.mem_singleton.mp h)
  have hspace : c = ' ' → isTypedChar c = true := by
    rintro rfl
    decide
  rcases List.mem_append.mp h with h | h
  · exact Or.inl (mem_modsText h)
  · rcases List.mem_append.mp h with h | h
    · exact htyped h
    -- only a method's front goes on behind the name
    · cases hshape : member.shape with
      | field =>
          rw [hshape] at h
          exact absurd h List.not_mem_nil
      | property =>
          rw [hshape] at h
          exact Or.inl (hspace (List.mem_singleton.mp h))
      | method params =>
          rw [hshape] at h htyped
          rcases List.mem_cons.mp h with hopen | h
          · exact Or.inr (Or.inr ⟨Or.inl hopen, params, rfl⟩)
          · rcases List.mem_append.mp h with h | h
            · rcases mem_join h with h | ⟨item, hitem, hc⟩
              · rcases List.mem_pair.mp h with hcomma | hblank
                · exact Or.inr (Or.inl hcomma)
                · exact Or.inl (hspace hblank)
              · obtain ⟨param, _, rfl⟩ := List.mem_map.mp hitem
                exact htyped hc
            · rcases List.mem_pair.mp h with hclose | hblank
              · exact Or.inr (Or.inr ⟨Or.inr hclose, params, rfl⟩)
              · exact Or.inl (hspace hblank)

/-- No other sign stands in the front of a member. -/
theorem not_mem_front (member : Member) {c : Char} (hc : isTypedChar c = false)
    (hother : c ∉ [',', '(', ')']) : c ∉ member.front := by
  intro hmem
  rcases mem_front hmem with h | rfl | ⟨rfl | rfl, _⟩
  · rw [hc] at h
    exact Bool.false_ne_true h
  · exact hother (by decide)
  · exact hother (by decide)
  · exact hother (by decide)

/-- No statement ends in the front of a member. -/
theorem not_bound_front (member : Member) : ∀ c ∈ member.front, isBound c = false := by
  intro c hc
  have hne : ∀ d, isTypedChar d = false → d ∉ [',', '(', ')'] → (c == d) = false := by
    intro d hd hother
    refine beq_eq_false_iff_ne.mpr ?_
    rintro rfl
    exact not_mem_front member hd hother hc
  rw [isBound, hne '\x7b' (by decide) (by decide), hne ';' (by decide) (by decide),
    hne '\x7d' (by decide) (by decide)]
  rfl

/-- A front is read as a header of no type. -/
theorem avoids_front (member : Member) : Avoids typeKeywords member.front := by
  have hsub : typeKeywords ⊆ reservedWords := by decide
  have hmods : ∀ (mods : List Modifier) {text : Text}, Avoids typeKeywords text →
      Avoids typeKeywords (Member.modsText mods ++ text) := by
    intro mods text htext
    -- the modifiers are reserved words too, but none that begins a type
    have hfree : ∀ word ∈ modifiers, word ∉ typeKeywords := by decide
    induction mods with
    | nil => exact htext
    | cons word rest ih =>
        rw [modsText_cons]
        refine Avoids.append_cons (by decide) (.of_word ?_ ?_) ih
        · exact fun c hc => isWordChar_of_identChar (modifier_word word c hc)
        · rw [String.ofList_toList]
          exact hfree word.val word.property
  refine hmods member.mods ?_
  have htyped : ∀ typed : Typed, Avoids typeKeywords typed.text := fun typed =>
    typed.avoids.mono hsub
  cases hshape : member.shape with
  | field =>
      rw [List.append_nil]
      exact htyped _
  | property => exact (htyped _).append_cons (by decide) (.nil (by decide))
  | method params =>
      have hlist : Avoids typeKeywords (join [',', ' '] (params.map Typed.text)) := by
        refine Avoids.join (by decide) (forall_chars (by decide)) ?_
        intro item hitem
        obtain ⟨param, _, rfl⟩ := List.mem_map.mp hitem
        exact htyped param
      have hspace : Avoids typeKeywords [' '] :=
        (Avoids.nil (by decide)).cons (by decide) (by decide)
      exact (htyped _).append_cons (by decide) (hlist.append_cons (by decide) hspace)

/-- A line is its front and a semicolon or a block. -/
theorem line_eq (member : Member) :
    member.line = member.front ++
      match member.shape with
      | .field => [';']
      | .property => Shape.accessors
      | .method _ => Shape.block := by
  obtain ⟨mods, typed, shape⟩ := member
  cases shape with
  | field => simp [Member.line, Member.text, Member.front, Shape.text, Shape.ending]
  | property => simp [Member.line, Member.text, Member.front, Shape.text, Shape.ending]
  | method params => simp [Member.line, Member.text, Member.front, Shape.text, Shape.ending]

/-! ## Hidden blocks -/

section Hide

variable {before inner : Text}

/-- Accessors without blocks of their own stay. -/
theorem hideAccessors_flat (h : '\x7b' ∉ inner) (c : Char) (rest : Text) :
    hideAccessors inner.length (inner ++ c :: rest) = inner ++ [c] := by
  induction inner with
  | nil => rw [List.length_nil, List.nil_append, hideAccessors]; rfl
  | cons first others ih =>
      have hne : first ≠ '\x7b' := fun heq => h (heq ▸ List.mem_cons_self)
      rw [List.length_cons, List.cons_append, hideAccessors, if_neg hne,
        ih fun hmem => h (List.mem_cons_of_mem _ hmem)]
      rfl

/-- A block of spaces or accessors stays as it is. -/
theorem hideBlock_eq_self (hfree : Avoids typeKeywords before) {rest : Text}
    (hkept : if '(' ∈ before then hide inner = inner else '\x7b' ∉ inner) :
    hideBlock before ('\x7b' :: (inner ++ '\x7d' :: rest)) (inner.length + 1) =
      before ++ '\x7b' :: (inner ++ ['\x7d']) := by
  have htype : announcesType before = false := by
    rw [announcesType, HeaderRule.next?_eq_none (fun _ => header?_eq_none) hfree]
    rfl
  rw [hideBlock_eq, if_neg (by simp [htype])]
  by_cases hparen : '(' ∈ before
  · rw [if_pos hparen] at hkept ⊢
    rw [hkept]
  · rw [if_neg hparen] at hkept ⊢
    rw [hideAccessors_flat hkept '\x7d' rest]

end Hide

/-! ## Statements -/

/-- A body has at least one segment, if only an empty one. -/
theorem statementSegments_ne_nil (depth : Nat) (text : Text) :
    statementSegments depth text ≠ [] := by
  fun_cases statementSegments depth text with
  | case1 | case3 | case5 => simp
  | case2 | case4 | case6 => exact attach_ne_nil _ _

/-- What ends no statement goes on. -/
theorem statementSegments_append {depth : Nat} {text : Text}
    (h : ∀ c ∈ text, c ≠ '\x7b' ∧ c ≠ '\x7d' ∧ (depth = 0 → c ≠ ';')) (rest : Text) :
    statementSegments depth (text ++ rest) = attach text (statementSegments depth rest) := by
  induction text with
  | nil => rw [attach_nil (statementSegments_ne_nil _ _), List.nil_append]
  | cons c others ih =>
      obtain ⟨hopen, hclose, hend⟩ := h c List.mem_cons_self
      rw [List.cons_append, statementSegments, if_neg hopen, if_neg hclose,
        if_neg fun hc => hend hc.2 hc.1, ih fun d hd => h d (List.mem_cons_of_mem _ hd),
        ← attach_append]
      rfl

/-! ## A line behind its margin -/

section Margin

variable {lead : Text} (hlead : IsMargin lead) (member : Member)

include hlead

/-- No statement ends before the end of a member's front, its margin included. -/
theorem not_bound_margin_front : ∀ c ∈ lead ++ member.front, isBound c = false := by
  intro c hc
  rcases List.mem_append.mp hc with hc | hc
  · rcases hlead c hc with rfl | rfl <;> decide
  · exact not_bound_front member c hc

/-- There is no type keyword between two members. -/
theorem avoids_margin_front : Avoids typeKeywords (lead ++ member.front) := by
  refine (avoids_front member).append_others (by decide) ?_
  intro c hc
  rcases hlead c hc with rfl | rfl <;> decide

/-- Of the members, only a method has a parenthesis before its braces. -/
theorem paren_mem_margin_front_iff :
    '(' ∈ lead ++ member.front ↔ ∃ params, member.shape = .method params := by
  constructor
  · intro hmem
    rcases List.mem_append.mp hmem with h | h
    · rcases hlead _ h with h | h <;> exact absurd h (by decide)
    · rcases mem_front h with h | h | ⟨_, h⟩
      · exact absurd h (by decide)
      · exact absurd h (by decide)
      · exact h
  · rintro ⟨params, hshape⟩
    simp [Member.front, hshape]

/-- The blocks of a member hide nothing. -/
theorem hideBlocks_member (rest : Text) :
    hideBlocks (lead ++ (member.line ++ rest)) = lead ++ (member.line ++ hideBlocks rest) := by
  have hbound := not_bound_margin_front hlead member
  have hfree := avoids_margin_front hlead member
  have hparen := paren_mem_margin_front_iff hlead member
  rw [line_eq]
  cases hshape : member.shape with
  | field =>
      have hhide := hideBlocks_append_bound hbound (Or.inl rfl) rest
      simpa using hhide
  | property =>
      -- without parentheses in front, a block is kept if it has no block in it
      have hkept : if '(' ∈ lead ++ member.front then hide Shape.words = Shape.words
          else '\x7b' ∉ Shape.words := by
        rw [if_neg (by rw [hparen, hshape]; rintro ⟨_, h⟩; cases h)]
        decide
      have hhide := hideBlocks_append_block hbound (closing?_balanced Shape.balanced_words rfl rest)
      rw [hideBlock_eq_self hfree hkept] at hhide
      simpa [Shape.accessors] using hhide
  | method params =>
      have hinner : Balanced .all (fun _ => True) [' '] := .of_ordinary (forall_chars (by decide))
      -- the block of a method is hidden, but a space hides as a space
      have hkept : if '(' ∈ lead ++ member.front then hide [' '] = [' '] else '\x7b' ∉ [' '] := by
        rw [if_pos (hparen.mpr ⟨params, hshape⟩)]
        decide
      have hhide := hideBlocks_append_block hbound (closing?_balanced hinner rfl rest)
      rw [hideBlock_eq_self hfree hkept] at hhide
      simpa [Shape.block] using hhide

/-- A member is a statement. -/
theorem statementSegments_member (rest : Text) :
    statementSegments 0 (lead ++ (member.line ++ rest)) =
      (lead ++ member.text) :: statementSegments 0 rest := by
  have hfront : ∀ tail, statementSegments 0 (lead ++ (member.front ++ tail)) =
      attach (lead ++ member.front) (statementSegments 0 tail) := by
    intro tail
    rw [← List.append_assoc]
    refine statementSegments_append (fun c hc => ?_) _
    have hbound := not_bound_margin_front hlead member c hc
    simp only [isBound, Bool.or_eq_false_iff, beq_eq_false_iff_ne] at hbound
    exact ⟨hbound.1.1, hbound.2, fun _ => hbound.1.2⟩
  have hline := line_eq member
  have htext : member.line = member.text ++ member.shape.ending := rfl
  -- a property and a method end in a block, which ends the statement as well
  have hblock : ∀ inner, (∀ c ∈ inner, c ≠ '\x7b' ∧ c ≠ '\x7d') →
      member.line = member.front ++ '\x7b' :: (inner ++ ['\x7d']) → member.shape.ending = [] →
      statementSegments 0 (lead ++ (member.line ++ rest)) =
        (lead ++ member.text) :: statementSegments 0 rest := by
    intro inner hinner hbraced hending
    have hsegments : statementSegments 0 ('\x7b' :: (inner ++ '\x7d' :: rest)) =
        ('\x7b' :: (inner ++ ['\x7d'])) :: statementSegments 0 rest := by
      rw [statementSegments, if_pos rfl, statementSegments_append fun c hc =>
        ⟨(hinner c hc).1, (hinner c hc).2, fun h => absurd h (by decide)⟩, statementSegments,
        if_neg (by decide), if_pos rfl, if_pos (by decide)]
      rfl
    rw [hending, List.append_nil] at htext
    rw [← htext, hbraced, List.append_assoc, hfront, List.cons_append, List.append_assoc,
      List.singleton_append, hsegments, attach, List.append_assoc]
  cases hshape : member.shape with
  | field =>
      rw [hshape] at hline htext
      have hsame : member.text = member.front := List.append_cancel_right (htext.symm.trans hline)
      rw [hline, List.append_assoc, hfront, hsame]
      show attach (lead ++ member.front) ([] :: statementSegments 0 rest) = _
      rw [attach, List.append_nil]
  | property =>
      rw [hshape] at hline
      exact hblock Shape.words (forall_chars (by decide)) hline (by rw [hshape]; rfl)
  | method params =>
      rw [hshape] at hline
      exact hblock [' '] (forall_chars (by decide)) hline (by rw [hshape]; rfl)

omit hlead

/-- A member's line is tidy. -/
theorem tidy_line : Tidy member.line := by
  have htext : Tidy member.text := tidy_modsText member.mods (Shape.tidy member.typed member.shape)
  unfold Member.line
  cases member.shape with
  | field => exact htext.append (.word (by decide) (forall_chars (by decide)))
  | property | method _ => exact (List.append_nil member.text).symm ▸ htext

theorem starts_line : StartsIdent member.line :=
  (starts_modsText member.mods (member.typed.starts.append _)).append _

/-- The line of a field is read like its statement. -/
theorem lineFacts_field {owner : String} {mods : List Modifier} {typed : Typed}
    (hname : typed.name.name ≠ owner) (raw : Text)
    (hraw : dropAttributes raw = (Member.mk mods typed .field).line) :
    lineFacts owner raw =
      (Member.mk mods typed .field).toClassMember.features.map (Feature.toFact owner) := by
  have hline : (Member.mk mods typed .field).line =
      (Member.mk mods typed .field).front ++ [';'] := line_eq _
  have hsame : (Member.mk mods typed .field).front = (Member.mk mods typed .field).text := rfl
  have hbrace : '\x7b' ∉ (Member.mk mods typed .field).line := by
    rw [hline, List.mem_append, not_or]
    exact ⟨not_mem_front _ (by decide) (by decide), by decide⟩
  have hsemicolon : ';' ∉ (Member.mk mods typed .field).front :=
    not_mem_front _ (by decide) (by decide)
  have hstatement : statementFacts owner ([] ++ (Member.mk mods typed .field).text) =
      (Member.mk mods typed .field).toClassMember.features.map (Feature.toFact owner) :=
    statementFacts_member hname (by simp)
  have hcontains : (Member.mk mods typed .field).line.contains '\x7b' = false := by
    simpa using hbrace
  unfold lineFacts
  simp only [hraw, hcontains, Bool.false_and, Bool.false_eq_true, if_false]
  rw [hline, List.getLast?_concat, List.dropLast_concat, if_pos (by simpa using hsemicolon), hsame]
  exact hstatement

/-- The line of a property is told by its accessors. -/
theorem lineFacts_property {owner : String} {mods : List Modifier} {typed : Typed} (raw : Text)
    (hraw : dropAttributes raw = (Member.mk mods typed .property).line) :
    lineFacts owner raw =
      (Member.mk mods typed .property).toClassMember.features.map (Feature.toFact owner) := by
  have hline : (Member.mk mods typed .property).line =
      (Member.mk mods typed .property).front ++ '\x7b' :: (Shape.words ++ ['\x7d']) := line_eq _
  have hbrace : '\x7b' ∉ (Member.mk mods typed .property).front :=
    not_mem_front _ (by decide) (by decide)
  have hparen : '(' ∉ [] ++ (Member.mk mods typed .property).front := by
    have hnone : IsMargin [] := fun c hc => absurd hc List.not_mem_nil
    rw [paren_mem_margin_front_iff hnone]
    rintro ⟨_, h⟩
    cases h
  -- an accessor stands behind the brace, wherever the search finds the first one
  have hwords : hasWord ["get", "set", "init"] (Member.mk mods typed .property).line = true := by
    rw [hline]
    exact isSome_wordPlaceFrom?_append (by decide) (by decide) false _
  have hblock : (Member.mk mods typed .property).line.contains '\x7b' = true ∧
      (Member.mk mods typed .property).line.contains '\x7d' = true := by
    rw [hline]
    simp
  have hhead : upTo '\x7b' (Member.mk mods typed .property).line =
      (Member.mk mods typed .property).front := by
    rw [hline, upTo_append_mark hbrace]
  have hcontains : (Member.mk mods typed .property).front.contains '(' = false := by
    simpa using hparen
  unfold lineFacts
  simp only [hraw, hblock, hwords, Bool.and_self, if_true, hhead, hcontains, Bool.false_eq_true,
    if_false]
  show headFacts owner (Member.modsText mods ++ (typed.text ++ [' '])) = _
  rw [headFacts_declared owner mods typed (forall_chars (by decide))]
  exact fieldFacts_eq owner typed

/-- The line of a method tells nothing more. -/
theorem lineFacts_method {owner : String} {mods : List Modifier} {typed : Typed}
    {params : List Typed} (raw : Text)
    (hraw : dropAttributes raw = (Member.mk mods typed (.method params)).line) :
    lineFacts owner raw = [] := by
  have hline : (Member.mk mods typed (.method params)).line =
      (Member.mk mods typed (.method params)).front ++ '\x7b' :: [' ', '\x7d'] := line_eq _
  have hbrace : '\x7b' ∉ (Member.mk mods typed (.method params)).front :=
    not_mem_front _ (by decide) (by decide)
  have hparen : (Member.mk mods typed (.method params)).front.contains '(' = true := by
    simp [Member.front]
  have hlast : (Member.mk mods typed (.method params)).line.getLast? = some '\x7d' := by
    rw [hline, List.getLast?_append_of_ne_nil _ (List.cons_ne_nil _ _)]
    rfl
  unfold lineFacts
  simp only [hraw, hlast]
  split
  -- a parameter that is called like an accessor does not make the method a property
  · rw [hline, upTo_append_mark hbrace, if_pos hparen]
  · rfl

/-- A line tells its field or property again. -/
theorem lineFacts_member {owner : String} {member : Member}
    (hname : member.typed.name.name ≠ owner) {lead : Text} (hlead : IsMargin lead) :
    lineFacts owner (lead ++ member.line) =
      if member.isField then member.toClassMember.features.map (Feature.toFact owner) else [] := by
  have hdrop : dropAttributes (lead ++ (member.line ++ [])) = member.line :=
    dropAttributes_padded (tidy_line member) (starts_line member) hlead.blank (by simp)
  rw [List.append_nil] at hdrop
  obtain ⟨mods, typed, shape⟩ := member
  cases shape with
  | field => exact lineFacts_field hname _ hdrop
  | property => exact lineFacts_property _ hdrop
  | method params => exact lineFacts_method _ hdrop

end Margin

/-! ## Bodies -/

/-- No member of a body is hidden as a nested type. -/
theorem hideBlocks_body (indent : Nat) (members : List Member) :
    hideBlocks (bodyText indent members) = bodyText indent members := by
  induction members with
  | nil =>
      show hideBlocks ['\n'] = ['\n']
      rw [hideBlocks]
      rfl
  | cons member rest ih =>
      rw [bodyText_cons, hideBlocks_member (isMargin_break indent), ih]

/-- The statements of a body are its members, each with its margin. -/
theorem statementSegments_body (indent : Nat) (members : List Member) :
    statementSegments 0 (bodyText indent members) =
      members.map (fun member => ('\n' :: List.replicate indent ' ') ++ member.text) ++
        [['\n']] := by
  induction members with
  | nil => rfl
  | cons member rest ih =>
      rw [bodyText_cons, statementSegments_member (isMargin_break indent), ih]
      rfl

/-- The statements of a body are its members. -/
theorem statements_body (indent : Nat) (members : List Member) :
    statements (bodyText indent members) =
      members.map fun member => ('\n' :: List.replicate indent ' ') ++ member.text := by
  unfold statements
  simp only [statementSegments_body, List.getLast?_concat, List.dropLast_concat]
  rw [if_pos (by decide)]

/-- The characters of a line: those of identifiers, and some signs. -/
def lineSigns : List Char :=
  ['.', '<', '>', '?', '[', ']', ' ', ',', '(', ')', ';', '\x7b', '\x7d']

/-- A member's line is spelled with few signs. -/
theorem spelled_line (member : Member) : Spelled isIdentChar lineSigns member.line := by
  have htyped : ∀ c, isTypedChar c = true → isIdentChar c = true ∨ c ∈ lineSigns := by
    intro c hc
    simp only [isTypedChar, Nominal.isTypeChar, Bool.or_eq_true, List.contains_iff_mem,
      beq_iff_eq] at hc
    rcases hc with (hc | hc) | rfl
    · exact Or.inl hc
    · have hsub : ['.', '<', '>', '?', '[', ']'] ⊆ lineSigns := by decide
      exact Or.inr (hsub hc)
    · exact Or.inr (by decide)
  have hfront : Spelled isIdentChar lineSigns member.front := by
    intro c hc
    rcases mem_front hc with h | rfl | ⟨rfl | rfl, _⟩
    · exact htyped c h
    · exact Or.inr (by decide)
    · exact Or.inr (by decide)
    · exact Or.inr (by decide)
  rw [line_eq]
  refine hfront.append ?_
  cases member.shape with
  | field => exact .of_all (by decide)
  | property => exact .of_all (by decide)
  | method params =>
      show Spelled isIdentChar lineSigns Shape.block
      exact .of_all (by decide)

theorem not_break_line (member : Member) : ∀ c ∈ member.line, isLineBreak c = false :=
  (spelled_line member).forall_mem (fun _ => not_break_of_identChar) (forall_chars (by decide))

theorem flatMap_filter {Item Part : Type} (items : List Item) (holds : Item → Bool)
    (parts : Item → List Part) :
    (items.filter holds).flatMap parts =
      items.flatMap fun item => if holds item then parts item else [] := by
  induction items with
  | nil => rfl
  | cons first rest ih =>
      rw [List.filter_cons, List.flatMap_cons, ← ih]
      split <;> rfl

/-- A written body tells exactly its members, and its fields and properties once more. -/
theorem memberFacts_body {owner : String} {members : List Member}
    (hnames : ∀ member ∈ members, member.typed.name.name ≠ owner) (indent : Nat) :
    memberFacts owner (bodyText indent members) =
      (((members ++ members.filter Member.isField).map Member.toClassMember).flatMap
        ClassMember.features).map (Feature.toFact owner) := by
  have hlines : lines (bodyText indent members) =
      [] :: members.map fun member => List.replicate indent ' ' ++ member.line := by
    have hbreaks : ∀ line ∈ members.map Member.line, ∀ c ∈ line, isLineBreak c = false := by
      intro line hline
      obtain ⟨member, _, rfl⟩ := List.mem_map.mp hline
      exact not_break_line member
    rw [bodyText, lines_indented hbreaks, List.map_map]
    rfl
  have hempty : lineFacts owner [] = [] := by
    have hdrop : dropAttributes [] = [] := by
      rw [dropAttributes]
      rfl
    unfold lineFacts
    simp [hdrop]
  unfold memberFacts
  simp only [hideBlocks_body, statements_body, hlines, List.flatMap_cons, hempty,
    List.flatMap_map, List.nil_append, List.map_append, List.map_flatMap, List.flatMap_append]
  -- the statements tell all members, and then the lines tell the fields again
  congr 1
  · exact List.flatMap_congr fun member hmember =>
      statementFacts_member (hnames member hmember) (isMargin_break indent).blank
  · rw [flatMap_filter]
    exact List.flatMap_congr fun member hmember =>
      lineFacts_member (hnames member hmember) (isMargin_spaces indent)

end CSharp

end ClassDiagram
