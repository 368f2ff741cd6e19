import ClassDiagram.Proofs.Model.Members
import ClassDiagram.Proofs.Reading.CSharpSpaces
import ClassDiagram.Proofs.Rendered.CSharpMember
import ClassDiagram.Proofs.Scan.Reached

/-!
# The heads of C# members

A member is read from its statement, without attributes and modifiers, and once more from a line of
the body, with its modifiers still before it. This file says that both readings agree where the line
holds the statement.

* `dropAttributes_congr`, `dropAttributes_append`: what is left of a statement without attributes.
* `typeAndName?_modifier`: modifiers before a type and a name do not count.
* `statementFacts_opened`: a property is read from what stands before its block.
* `lineFacts_of_statement`: a line tells what its statement tells, or nothing.
-/

namespace ClassDiagram

namespace CSharp

open Text

/-! ## Attributes -/

section Attributes

variable {text other rest : Text}

/-- An attribute list is dropped up to its closing bracket, or all is without one. -/
theorem dropAttributes_group (h : strip text = '[' :: rest) :
    dropAttributes text =
      (closing? ('[' :: rest)).elim [] fun close => dropAttributes (rest.drop close) := by
  rw [dropAttributes]
  split
  · rename_i found hfound
    obtain rfl : found = rest := (List.cons.inj (hfound.symm.trans h)).2
    split
    · rename_i hclose
      rw [hclose, Option.elim_some]
    · rename_i hclose
      rw [hclose, Option.elim_none]
  · rename_i hother
    exact absurd h (hother rest)

/-- Blanks around a text do not count. -/
theorem dropAttributes_congr (h : strip text = strip other) :
    dropAttributes text = dropAttributes other := by
  by_cases hgroup : (strip text).head? = some '['
  · obtain ⟨rest, hrest⟩ := List.head?_eq_some_iff.mp hgroup
    rw [dropAttributes_group hrest, dropAttributes_group (h ▸ hrest)]
  · rw [dropAttributes_plain hgroup, dropAttributes_plain (h ▸ hgroup), h]

/-- Dropping attributes leaves none to drop. -/
@[simp] theorem dropAttributes_dropAttributes (text : Text) :
    dropAttributes (dropAttributes text) = dropAttributes text := by
  fun_induction dropAttributes text with
  | case1 text rest hstrip close hclose ih => exact ih
  | case2 => decide +kernel
  | case3 text hother =>
      have hplain : (strip (strip text)).head? ≠ some '[' := by
        rw [strip_strip]
        intro hgroup
        obtain ⟨rest, hrest⟩ := List.head?_eq_some_iff.mp hgroup
        exact hother rest hrest
      rw [dropAttributes_plain hplain, strip_strip]

/-- A semicolon behind a text stays behind it, unless the text is attributes only. -/
theorem dropAttributes_append {gap : Text} (hgap : ∀ c ∈ gap, isBlank c = true)
    (h : dropAttributes text ≠ []) :
    ∃ between, (∀ c ∈ between, isBlank c = true) ∧
      dropAttributes (text ++ (gap ++ [';'])) = dropAttributes text ++ (between ++ [';']) := by
  have hsemicolon : isBlank ';' = false := by decide
  fun_induction dropAttributes text generalizing gap with
  | case1 text rest hstrip close hclose ih =>
      obtain ⟨between, hbetween, hlonger⟩ :=
        exists_strip_append_mark hsemicolon hgap (hstrip ▸ List.cons_ne_nil _ _)
      -- where a group of attributes ends does not depend on what follows it
      obtain ⟨closer, inner, back, -, rfl, rfl, hother⟩ := exists_of_closing? hclose
      have hdrop : ∀ behind, (inner ++ closer :: behind).drop (inner.length + 1) = behind := by
        intro behind
        rw [← List.drop_drop, List.drop_left]
        rfl
      rw [hstrip, List.cons_append, List.append_assoc, List.cons_append] at hlonger
      rw [hdrop] at ih h ⊢
      rw [dropAttributes_group hlonger, hother, Option.elim_some, hdrop]
      exact ih hbetween h
  | case2 => exact absurd rfl h
  | case3 text hother =>
      obtain ⟨between, hbetween, hlonger⟩ := exists_strip_append_mark hsemicolon hgap h
      refine ⟨between, hbetween, ?_⟩
      rw [dropAttributes_plain, hlonger]
      rw [hlonger, List.head?_append_of_ne_nil _ h]
      intro hgroup
      obtain ⟨rest, hrest⟩ := List.head?_eq_some_iff.mp hgroup
      exact hother rest hrest

/-- What ends in no blank ends so without its attributes, unless nothing is left. -/
theorem getLast?_dropAttributes {c : Char} (hc : isBlank c = false)
    (h : text.getLast? = some c) (hne : dropAttributes text ≠ []) :
    (dropAttributes text).getLast? = some c := by
  fun_induction dropAttributes text with
  | case1 text rest hstrip close hclose ih =>
      refine ih ?_ hne
      have hlast := getLast?_strip h hc
      have hbehind : rest.drop close ≠ [] := by
        intro hnil
        rw [hnil] at hne
        exact hne (by decide +kernel)
      rw [hstrip, ← List.take_append_drop close rest, ← List.cons_append,
        List.getLast?_append_of_ne_nil _ hbehind] at hlast
      exact hlast
  | case2 => exact absurd rfl hne
  | case3 text hother => exact getLast?_strip h hc

end Attributes

/-! ## Modifiers -/

/-- What is found before type parameters does not depend on what follows. -/
theorem beforeAngles?_append {depth : Nat} {text before : Text}
    (h : beforeAngles? depth text = some before) (rest : Text) :
    beforeAngles? depth (text ++ rest) = some (before ++ rest) := by
  fun_induction beforeAngles? depth text with
  | case1 => cases h
  | case2 depth tail ih => exact ih h
  | case3 depth tail hdepth =>
      cases h
      rw [List.cons_append, beforeAngles?, if_pos hdepth]
  | case4 depth tail hdepth ih =>
      rw [List.cons_append, beforeAngles?, if_neg hdepth]
      exact ih h
  | case5 depth c tail hopen hclose ih =>
      rw [List.cons_append, beforeAngles?]
      · exact ih h
      · exact hopen
      · exact hclose

/-- Type parameters are dropped if they leave a type and a name. -/
theorem dropTypeParameters_eq {head before : Text} (hangle : head.getLast? = some '>')
    (hbefore : beforeAngles? 0 head.reverse = some before)
    (hspace : ' ' ∈ stripEnd before.reverse)
    (hword : (stripEnd before.reverse).getLast?.any isWordChar = true) :
    dropTypeParameters head = stripEnd before.reverse := by
  rw [dropTypeParameters, if_pos hangle, hbefore]
  exact if_pos (by simp [hspace, hword])

/-- If type parameters are dropped, they stand at the end behind a name. -/
theorem exists_of_dropTypeParameters_ne {head : Text} (h : dropTypeParameters head ≠ head) :
    head.getLast? = some '>' ∧ ∃ before, beforeAngles? 0 head.reverse = some before ∧
      ' ' ∈ stripEnd before.reverse ∧ (stripEnd before.reverse).getLast?.any isWordChar = true := by
  unfold dropTypeParameters at h
  split at h
  · rename_i hangle
    split at h
    · rename_i before hbefore
      dsimp only at h
      split at h
      · rename_i hleft
        simp only [Bool.and_eq_true, List.contains_iff_mem] at hleft
        exact ⟨hangle, before, hbefore, hleft⟩
      · exact absurd rfl h
    · exact absurd rfl h
  · exact absurd rfl h

/-- A word before a type and a name stays when their type parameters are dropped. -/
theorem dropTypeParameters_append {head : Text} (hne : head ≠ [])
    (h : head.getLast? = some '>' → dropTypeParameters head ≠ head) (word : Text) :
    dropTypeParameters (word ++ ' ' :: head) = word ++ ' ' :: dropTypeParameters head := by
  have hlast : ∀ {text : Text}, text ≠ [] → (word ++ ' ' :: text).getLast? = text.getLast? := by
    intro text htext
    rw [List.getLast?_append_of_ne_nil _ (List.cons_ne_nil _ _),
      List.getLast?_cons_of_ne_nil htext]
  -- the search goes backwards from the end and stops at the name, before the word
  by_cases hangle : head.getLast? = some '>'
  · obtain ⟨-, before, hbefore, hspace, hword⟩ := exists_of_dropTypeParameters_ne (h hangle)
    have hfilled : stripEnd before.reverse ≠ [] := List.ne_nil_of_mem hspace
    have hreverse : beforeAngles? 0 (word ++ ' ' :: head).reverse =
        some (before ++ ' ' :: word.reverse) := by
      rw [List.reverse_append, List.reverse_cons, List.append_assoc]
      exact beforeAngles?_append hbefore _
    have hlonger : stripEnd (before ++ ' ' :: word.reverse).reverse =
        word ++ ' ' :: stripEnd before.reverse := by
      rw [List.reverse_append, List.reverse_cons, List.reverse_reverse, stripEnd_append hfilled,
        List.append_assoc]
      rfl
    rw [dropTypeParameters_eq hangle hbefore hspace hword,
      dropTypeParameters_eq ((hlast hne).trans hangle) hreverse, hlonger]
    · rw [hlonger]
      exact List.mem_append_right _ List.mem_cons_self
    · rw [hlonger, hlast hfilled, hword]
  · rw [dropTypeParameters, if_neg (by rwa [hlast hne]), dropTypeParameters, if_neg hangle]

/-- The words at the front of a text are the first that it is cut into. -/
theorem splitTop_word {word : Text} (hne : word ≠ []) (hword : ∀ c ∈ word, isIdentChar c = true)
    (text : Text) :
    splitTop (word ++ ' ' :: text) (· == ' ') = word :: splitTop text (· == ' ') := by
  have hbalanced : Balanced .all (fun c => isIdentChar c = true) word :=
    .of_ordinary fun c hc => ⟨isOrdinary_of_identChar (hword c hc), hword c hc⟩
  have huncut : Uncut (· == ' ') .all word := hbalanced.uncut fun c hc => by
    simpa using ne_of_identChar hc (by decide)
  have hspace : topSegments (· == ' ') .all 0 false (pieces false (' ' :: text)) =
      [] :: topSegments (· == ' ') .all 0 false (pieces false text) := by
    rw [pieces_cons (by decide) (by decide)]
    rfl
  have hall : topSegments (· == ' ') .all 0 false (pieces false (word ++ ' ' :: text)) =
      word :: topSegments (· == ' ') .all 0 false (pieces false text) := by
    rw [huncut, hspace, attach, List.append_nil]
  have hstrip : strip word = word :=
    (Tidy.word hne fun c hc => not_blank_of_identChar (hword c hc)).strip
  unfold splitTop
  change ((topSegments _ .all 0 false (pieces false (word ++ ' ' :: text))).map strip).filter _ = _
  rw [hall, List.map_cons, hstrip, List.filter_cons_of_pos (by simpa using hne)]
  rfl

/-- The parts of a head that has a type and a name. -/
def headParts (head : Text) : List Text :=
  ((dropTypeParameters head.collapse).splitTop (· == ' ')).filter fun part =>
    !modifiers.contains (String.ofList part)

theorem typeAndName?_congr {head other : Text} (h : headParts head = headParts other) :
    typeAndName? head = typeAndName? other := by
  unfold typeAndName?
  unfold headParts at h
  simp only [h]

/-- The last part of a head that has a type and a name is a name. -/
theorem last_headParts {head : Text} {found : Text × Text} (h : typeAndName? head = some found) :
    ∃ name, (headParts head).getLast? = some name ∧ isMemberName name = true := by
  unfold typeAndName? at h
  dsimp only at h
  split at h
  · cases h
  · rename_i name hname
    refine ⟨name, hname, ?_⟩
    by_contra hnot
    rw [if_pos (by simp [hnot])] at h
    cases h

/-- A head that has a type and a name ends in no bracket without its type parameters. -/
theorem dropTypeParameters_ne_of_typeAndName? {head : Text} {found : Text × Text}
    (h : typeAndName? head = some found) (hangle : head.collapse.getLast? = some '>') :
    dropTypeParameters head.collapse ≠ head.collapse := by
  intro heq
  obtain ⟨name, hname, hmember⟩ := last_headParts h
  have hends : ((pieces false head.collapse).flatMap Piece.chars).getLast? = some '>' := by
    rw [chars_pieces, hangle]
  obtain ⟨init, last, hsegments, hmem⟩ :=
    mem_last_topSegments (· == ' ') ⟨true, true⟩ 0 false hends (by decide)
  have hstripped : '>' ∈ strip last := mem_strip hmem (by decide)
  -- the last part is none of the modifiers, as it holds the bracket
  have hkept : String.ofList (strip last) ∉ modifiers := by
    intro hword
    have hchars := modifier_word ⟨_, hword⟩ '>'
    rw [String.toList_ofList] at hchars
    exact absurd (hchars hstripped) (by decide)
  have hlast : (headParts head).getLast? = some (strip last) := by
    rw [headParts, heq, splitTop, hsegments, List.map_append, List.map_singleton,
      List.filter_append, List.filter_cons_of_pos (by simpa using List.ne_nil_of_mem hstripped),
      List.filter_append, List.filter_cons_of_pos (by simpa using hkept), List.filter_nil,
      List.filter_nil, List.getLast?_concat]
  obtain rfl : strip last = name := Option.some.inj (hlast.symm.trans hname)
  rcases char_of_isMemberName hmember '>' hstripped with hchar | hchar | hchar <;>
    exact absurd hchar (by decide)

/-- A modifier before a type and a name is not read. -/
theorem typeAndName?_modifier {word head : Text} (hword : String.ofList word ∈ modifiers)
    {found : Text × Text} (h : typeAndName? head = some found) :
    typeAndName? (word ++ ' ' :: head) = some found := by
  have hfilled : word ≠ [] ∧ ∀ c ∈ word, isIdentChar c = true := by
    have hne := modifier_ne_nil ⟨_, hword⟩
    have hchars := modifier_word ⟨_, hword⟩
    rw [String.toList_ofList] at hne hchars
    exact ⟨hne, hchars⟩
  have hne : head.collapse ≠ [] := by
    intro hnil
    obtain ⟨name, hname, -⟩ := last_headParts h
    rw [headParts, hnil] at hname
    have hnone : splitTop (dropTypeParameters []) (· == ' ') = [] := by decide +kernel
    rw [hnone] at hname
    cases hname
  have hcollapse := collapse_word_append hfilled.1
    (fun c hc => not_blank_of_identChar (hfilled.2 c hc)) hne
  -- the modifier is one more word, which the filter drops
  have hparts : headParts (word ++ ' ' :: head) = headParts head := by
    rw [headParts, hcollapse,
      dropTypeParameters_append hne (dropTypeParameters_ne_of_typeAndName? h),
      splitTop_word hfilled.1 hfilled.2, List.filter_cons_of_neg (by simpa using hword)]
    rfl
  rw [typeAndName?_congr hparts, h]

/-- Modifiers end before any mark, and what is left of a type and a name is read like the whole. -/
theorem exists_dropModifiers_append (lead : Text) {mark : Char} (hmark : isIdentChar mark = false)
    (hspace : mark ≠ ' ') (behind : Text) :
    ∃ front rest, lead = front ++ rest ∧
      dropModifiers (lead ++ mark :: behind) = rest ++ mark :: behind ∧
      ∀ found, typeAndName? rest = some found → typeAndName? lead = some found := by
  generalize htext : lead ++ mark :: behind = text
  fun_induction dropModifiers text generalizing lead with
  | case1 text h ih =>
      subst htext
      have hword : String.ofList (upTo ' ' (lead ++ mark :: behind)) ∈ modifiers := by
        simpa using h.1
      by_cases hmem : ' ' ∈ lead
      · obtain ⟨word, later, rfl, hno⟩ := List.eq_append_cons_of_mem hmem
        rw [List.append_assoc, List.cons_append] at hword ih ⊢
        rw [upTo_append_mark hno] at hword
        rw [past_append_mark hno] at ih ⊢
        obtain ⟨front, rest, rfl, hdropped, hreads⟩ := ih later rfl
        refine ⟨word ++ ' ' :: front, rest, by simp, hdropped, fun found hfound => ?_⟩
        exact typeAndName?_modifier hword (hreads found hfound)
      -- no modifier holds the mark
      · have hwhole : mark ∈ upTo ' ' (lead ++ mark :: behind) := by
          rw [List.append_cons, upTo, List.takeWhile_append_of_pos]
          · simp
          · intro c hc
            rcases List.mem_append.mp hc with hc | hc
            · have hne : c ≠ ' ' := fun heq => hmem (heq ▸ hc)
              simpa using hne
            · simpa [List.mem_singleton.mp hc] using hspace
        have hchars := modifier_word ⟨_, hword⟩ mark
        rw [String.toList_ofList] at hchars
        exact absurd (hchars hwhole) (by simp [hmark])
  | case2 text h => exact ⟨[], lead, rfl, htext.symm, fun _ hfound => hfound⟩

/-! ## Statements with a block -/

/-- A target is found no earlier than its first character. -/
theorem lt_of_topLevelFrom? {c mark : Char} {more before : Text} (hbefore : c ∉ before)
    (hmark : c ≠ mark) {depth : Nat} {previous : Option Char} {behind : Text} {place : Nat}
    (h : topLevelFrom? (c :: more) depth previous (before ++ mark :: behind) = some place) :
    before.length < place := by
  have hstands : ∀ {previous : Option Char} {d : Char} {rest : Text}, c ≠ d →
      standsAt (c :: more) previous (d :: rest) = false := by
    intro previous d rest hne
    unfold standsAt
    split
    · rename_i heq
      cases heq
      simp [isAssignment, Ne.symm hne]
    · rw [List.isPrefixOf_cons_cons, beq_eq_false_iff_ne.mpr hne, Bool.false_and]
  -- the target does not start before the mark, nor at it
  induction before generalizing depth previous place with
  | nil =>
      rw [List.nil_append, topLevelFrom?, if_neg (by simp [hstands hmark])] at h
      obtain ⟨later, -, rfl⟩ := Option.map_eq_some_iff.mp h
      exact Nat.succ_pos later
  | cons d rest ih =>
      have hd : c ≠ d := fun heq => hbefore (heq ▸ List.mem_cons_self)
      rw [List.cons_append, topLevelFrom?, if_neg (by simp [hstands hd])] at h
      obtain ⟨later, hlater, rfl⟩ := Option.map_eq_some_iff.mp h
      exact Nat.succ_lt_succ (ih (fun hmem => hbefore (List.mem_cons_of_mem _ hmem)) hlater)

/-- What a statement is read from. -/
def core (statement : Text) : Text := dropModifiers (dropAttributes statement).collapse

/-- Whether a block opens in a statement outside of all brackets and before any equals sign. -/
def OpensPlainly (statement : Text) : Prop :=
  topLevel? ['\x7b'] (core statement) = indexOf? ['\x7b'] (core statement) ∧
    '=' ∉ (core statement).upTo '\x7b'

instance : DecidablePred OpensPlainly := fun _ => instDecidableAnd

/-- A statement with a block that opens plainly behind a head without parameters is passed over, or
it is read like its head. -/
theorem statementFacts_opened {owner : String} {statement head behind : Text}
    (hcore : core statement = head ++ '\x7b' :: behind) (hbrace : '\x7b' ∉ head)
    (hparen : '(' ∉ head) (hopens : OpensPlainly statement) :
    statementFacts owner statement = [] ∨
      statementFacts owner statement = headFacts owner head := by
  obtain ⟨hplace, hequals⟩ := hopens
  rw [hcore, indexOf?_append_mark hbrace] at hplace
  rw [hcore, upTo_append_mark hbrace] at hequals
  have hlater : ∀ {c : Char} {more : Text}, c ∉ head → c ≠ '\x7b' →
      ∀ place ∈ topLevel? (c :: more) (head ++ '\x7b' :: behind), head.length < place := by
    intro c more hc hne place hplace
    obtain ⟨found, hfound, rfl⟩ := Option.map_eq_some_iff.mp hplace
    exact lt_of_topLevelFrom? hc hne hfound
  have hlead : (head ++ '\x7b' :: behind).head? ≠ some '(' := by
    cases head with
    | nil => simp
    | cons c rest => exact fun heq => hparen (Option.some.inj heq ▸ List.mem_cons_self)
  by_cases hpassed : isPassedOver (head ++ '\x7b' :: behind) = true
  · left
    rw [core] at hcore
    unfold statementFacts
    simp only [hcore, hpassed]
  · right
    -- of the four signs that end a head, the brace comes first
    have hfirst : comesFirst (some head.length) [topLevel? ['='] (head ++ '\x7b' :: behind),
        topLevel? ['=', '>'] (head ++ '\x7b' :: behind)] = true := by
      have hall : ∀ {more : Text}, (topLevel? ('=' :: more) (head ++ '\x7b' :: behind)).all
          (head.length < ·) = true := by
        intro more
        rw [Option.all_eq_true]
        exact fun place hfound => decide_eq_true (hlater hequals (by decide) place hfound)
      simp only [comesFirst, List.all_cons, List.all_nil, hall, Bool.and_true]
    have hnot : comesFirst (topLevel? ['('] (head ++ '\x7b' :: behind))
        [topLevel? ['='] (head ++ '\x7b' :: behind),
          topLevel? ['=', '>'] (head ++ '\x7b' :: behind), some head.length] = false := by
      cases hfound : topLevel? ['('] (head ++ '\x7b' :: behind) with
      | none => rfl
      | some place =>
          have := hlater hparen (by decide) place hfound
          simp only [comesFirst, List.all_cons, List.all_nil, Option.all_some,
            decide_eq_false (Nat.not_lt.mpr (Nat.le_of_lt this)), Bool.false_and, Bool.and_false]
    rw [core] at hcore
    unfold statementFacts
    simp only [hcore, eq_false_of_ne_true hpassed, if_neg hlead, hplace, hnot, hfirst,
      Option.getD_some, List.take_left, Bool.false_eq_true, if_false, if_true]

section Facts

variable {owner : String} {statement line head behind : Text}

/-- Only what is left without attributes is told. -/
theorem statementFacts_congr {other : Text} (h : dropAttributes statement = dropAttributes other) :
    statementFacts owner statement = statementFacts owner other := by
  unfold statementFacts
  rw [h]

/-- Before a block that opens plainly, attributes and blanks apart, a line and a statement have the
same type and name. -/
theorem headFacts_opened (hopens : OpensPlainly statement)
    (h : dropAttributes statement = head ++ '\x7b' :: behind) (hbrace : '\x7b' ∉ head)
    (hparen : '(' ∉ head) (htold : toldKeys owner (statementFacts owner statement) ≠ []) :
    headFacts owner head = statementFacts owner statement := by
  have hmark : isBlank '\x7b' = false := by decide
  obtain ⟨lead, more, hcollapse, hsame, hsub⟩ := exists_collapse_append_mark hmark head behind
  obtain ⟨front, rest, rfl, hdropped, hreads⟩ :=
    exists_dropModifiers_append lead (show isIdentChar '\x7b' = false by decide) (by decide) more
  have hcore : core statement = rest ++ '\x7b' :: more := by rw [core, h, hcollapse, hdropped]
  have hfree : ∀ {c : Char}, c ≠ ' ' → c ∉ head → c ∉ rest := by
    intro c hspace hc hmem
    exact (hsub c (List.mem_append_right _ hmem)).elim hspace hc
  -- a statement that is passed over tells no member
  rcases statementFacts_opened hcore (hfree (by decide) hbrace) (hfree (by decide) hparen) hopens
    with hnone | hfacts
  · rw [hnone] at htold
    exact absurd rfl htold
  · rw [hfacts] at htold ⊢
    cases hrest : typeAndName? rest with
    | none =>
        rw [headFacts, hrest] at htold
        exact absurd rfl htold
    | some found =>
        have hparts : headParts head = headParts (front ++ rest) := by
          rw [headParts, headParts, hsame]
        rw [headFacts, headFacts, typeAndName?_congr hparts, hreads found hrest, hrest]

/-- A line that holds a statement up to a semicolon, or one that ends in a block, tells nothing or
what the statement tells. -/
theorem lineFacts_of_statement {tail : Text}
    (hline : dropAttributes line = dropAttributes statement ++ tail)
    (htail : (∃ gap, (∀ c ∈ gap, isBlank c = true) ∧ tail = gap ++ [';']) ∨
      tail = [] ∧ (dropAttributes statement).getLast? = some '\x7d')
    (hopens : '\x7b' ∈ dropAttributes statement → OpensPlainly statement)
    (htold : toldKeys owner (statementFacts owner statement) ≠ []) :
    lineFacts owner line = [] ∨ lineFacts owner line = statementFacts owner statement := by
  unfold lineFacts
  rw [hline]
  dsimp only
  split
  -- a block with accessors: the line is read up to its brace, which is that of the statement
  · rename_i hblock
    have hmem : '\x7b' ∈ dropAttributes statement ++ tail := by
      simp only [Bool.and_eq_true, List.contains_iff_mem] at hblock
      exact hblock.1.1
    have hopen : '\x7b' ∈ dropAttributes statement := by
      rcases List.mem_append.mp hmem with hmem | hmem
      · exact hmem
      · rcases htail with ⟨gap, hgap, rfl⟩ | ⟨rfl, -⟩
        · rcases List.mem_append.mp hmem with hmem | hmem
          · exact absurd (hgap _ hmem) (by decide)
          · exact absurd (List.mem_singleton.mp hmem) (by decide)
        · exact absurd hmem List.not_mem_nil
    obtain ⟨head, behind, hhead, hbrace⟩ := List.eq_append_cons_of_mem hopen
    rw [hhead, List.append_assoc, List.cons_append, upTo_append_mark hbrace]
    split
    · exact Or.inl rfl
    · rename_i hparen
      exact Or.inr (headFacts_opened (hopens hopen) hhead hbrace (by simpa using hparen) htold)
  · split
    -- a semicolon at the end only: the line is read like a statement without it
    · rename_i hend
      have hlast : (dropAttributes statement ++ tail).getLast? = some ';' := by
        simpa using (Bool.and_eq_true_iff.mp hend).1
      rcases htail with ⟨gap, hgap, rfl⟩ | ⟨rfl, hclosed⟩
      · right
        rw [← List.append_assoc, List.dropLast_concat]
        refine statementFacts_congr ?_
        rw [dropAttributes_congr (strip_append_blanks hgap _), dropAttributes_dropAttributes]
      · rw [List.append_nil, hclosed] at hlast
        exact absurd (Option.some.inj hlast) (by decide)
    · exact Or.inl rfl

end Facts

end CSharp

end ClassDiagram
