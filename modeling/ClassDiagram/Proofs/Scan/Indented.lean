import ClassDiagram.Proofs.Text.Spelled
import ClassDiagram.Text.Line

/-!
# Indented lines

The lines of a body between its braces: each behind a line break and some spaces, and a last line
break. This file says what such lines are to the scanners.

* `lines_indented`: cut at every line break, they are the lines.
* `units_indented`: cut at the line breaks outside of braces and parentheses, they are the lines
  again.
* `Balanced.indented`, `Avoids.indented`: they are balanced and avoid words if every line does.
-/

namespace ClassDiagram

namespace Text

/-- Lines, each behind a line break and some spaces, and a line break at the end. -/
def indented (indent : Nat) (written : List Text) : Text :=
  (written.flatMap fun line => '\n' :: (List.replicate indent ' ' ++ line)) ++ ['\n']

/-- What stands before a line. -/
def IsMargin (lead : Text) : Prop := ∀ c ∈ lead, c = '\n' ∨ c = ' '

/-- A margin is made of blanks. -/
theorem IsMargin.blank {lead : Text} (h : IsMargin lead) : ∀ c ∈ lead, isBlank c = true := by
  intro c hc
  rcases h c hc with rfl | rfl <;> decide

/-- A line break and an indent are a margin. -/
theorem isMargin_break (indent : Nat) : IsMargin ('\n' :: List.replicate indent ' ') := by
  intro c hc
  rcases List.mem_cons.mp hc with rfl | hc
  · exact Or.inl rfl
  · exact Or.inr (List.eq_of_mem_replicate hc)

theorem isMargin_spaces (indent : Nat) : IsMargin (List.replicate indent ' ') :=
  fun c hc => isMargin_break indent c (List.mem_cons_of_mem _ hc)

section Indented

variable {indent : Nat} {written : List Text}

theorem indented_cons (indent : Nat) (line : Text) (rest : List Text) :
    indented indent (line :: rest) =
      ('\n' :: List.replicate indent ' ') ++ (line ++ indented indent rest) := by
  simp [indented]

theorem Spelled.indented {isLetter : Char → Bool} {signs : List Char}
    (hbreak : isLetter '\n' = true ∨ '\n' ∈ signs) (hspace : isLetter ' ' = true ∨ ' ' ∈ signs)
    (h : ∀ line ∈ written, Spelled isLetter signs line) :
    Spelled isLetter signs (indented indent written) := by
  have hmargin : Spelled isLetter signs (List.replicate indent ' ') :=
    fun c hc => List.eq_of_mem_replicate hc ▸ hspace
  refine .append (fun c hc => ?_) (.cons hbreak .nil)
  obtain ⟨line, hline, hc⟩ := List.mem_flatMap.mp hc
  exact Spelled.cons hbreak (hmargin.append (h line hline)) c hc

/-- Margins open no bracket. -/
theorem Balanced.indented {brackets : Brackets} {top : Char → Prop} (hbreak : top '\n')
    (hspace : top ' ') (h : ∀ line ∈ written, Balanced brackets top line) :
    Balanced brackets top (indented indent written) := by
  induction written with
  | nil => exact .char (by decide) hbreak .nil
  | cons line rest ih =>
      have hmargin : Balanced brackets top ('\n' :: List.replicate indent ' ') := by
        refine .of_ordinary fun c hc => ?_
        rcases isMargin_break indent c hc with rfl | rfl
        · exact ⟨by decide, hbreak⟩
        · exact ⟨by decide, hspace⟩
      rw [indented_cons]
      exact hmargin.append ((h line List.mem_cons_self).append
        (ih fun other hother => h other (List.mem_cons_of_mem _ hother)))

/-- Words that no line holds are not in all lines, nor in what follows them. -/
theorem Avoids.indented {words : List String} (hempty : "" ∉ words)
    (h : ∀ line ∈ written, Avoids words line) {behind : Text} (hbehind : Avoids words behind) :
    Avoids words (indented indent written ++ behind) := by
  induction written with
  | nil => exact hbehind.cons (by decide) hempty
  | cons line rest ih =>
      -- what follows the line starts with a line break
      obtain ⟨others, hothers⟩ :
          ∃ others, Text.indented indent rest ++ behind = '\n' :: others := by
        cases rest with
        | nil => exact ⟨_, rfl⟩
        | cons next others => exact ⟨_, rfl⟩
      have hrest : Avoids words others := by
        have hall := ih fun other hother => h other (List.mem_cons_of_mem _ hother)
        rw [hothers, ← List.nil_append ('\n' :: others)] at hall
        exact ((append_cons_iff (by decide)).mp hall).2
      rw [indented_cons, List.append_assoc, List.append_assoc, hothers]
      refine append_others hempty ?_
        ((h line List.mem_cons_self).append_cons (by decide) hrest)
      intro c hc
      rcases isMargin_break indent c hc with rfl | rfl <;> decide

end Indented

/-! ## Lines -/

/-- A line ends at its line break. -/
theorem lines_append_break {line : Text} (h : ∀ c ∈ line, isLineBreak c = false) (rest : Text) :
    lines (line ++ '\n' :: rest) = line :: lines rest := by
  induction line with
  | nil =>
      rw [List.nil_append, lines, if_pos (by decide)]
      intro tail heq
      exact absurd heq (by decide)
  | cons c others ih =>
      have hc := h c List.mem_cons_self
      have hreturn : c ≠ '\r' := by
        rintro rfl
        exact absurd hc (by decide)
      rw [List.cons_append, lines, if_neg (by rw [hc]; decide),
        ih fun d hd => h d (List.mem_cons_of_mem _ hd)]
      · rfl
      · intro tail heq
        exact absurd heq hreturn

section Cut

variable {indent : Nat} {written : List Text}

/-- Behind the rest of a line, the lines of a body are cut apart. -/
theorem lines_append_indented {text : Text} (htext : ∀ c ∈ text, isLineBreak c = false)
    (h : ∀ line ∈ written, ∀ c ∈ line, isLineBreak c = false) :
    lines (text ++ indented indent written) =
      text :: written.map (List.replicate indent ' ' ++ ·) := by
  induction written generalizing text with
  | nil => exact lines_append_break htext []
  | cons line rest ih =>
      have hline : ∀ c ∈ List.replicate indent ' ' ++ line, isLineBreak c = false := by
        intro c hc
        rcases List.mem_append.mp hc with hc | hc
        · rw [List.eq_of_mem_replicate hc]
          decide
        · exact h line List.mem_cons_self c hc
      rw [indented_cons, List.cons_append, lines_append_break htext, ← List.append_assoc,
        ih hline fun other hother => h other (List.mem_cons_of_mem _ hother)]
      rfl

/-- The lines of an indented text are the written ones, with their indent. -/
theorem lines_indented (h : ∀ line ∈ written, ∀ c ∈ line, isLineBreak c = false) :
    lines (indented indent written) = [] :: written.map (List.replicate indent ' ' ++ ·) :=
  lines_append_indented (fun c (hc : c ∈ []) => absurd hc List.not_mem_nil) h

/-! ## Units -/

theorem unitSegments_ne_nil (braces parens : Nat) (pieces : List Piece) :
    unitSegments braces parens pieces ≠ [] := by
  fun_cases unitSegments braces parens pieces with
  | case1 | case3 => exact List.cons_ne_nil _ _
  | case2 | case4 => exact attach_ne_nil _ _

/-- A character other than a line break goes on, and braces and parentheses are counted. -/
theorem unitSegments_cons {c : Char} (hbreak : c ≠ '\n') (braces parens : Nat)
    (rest : List Piece) :
    unitSegments braces parens (.char c :: rest) =
      attach [c] (unitSegments
        (if c = '\x7b' then braces + 1 else if c = '\x7d' then braces - 1 else braces)
        (if c = '(' then parens + 1 else if c = ')' then parens - 1 else parens) rest) := by
  rw [unitSegments]
  exact if_neg fun h => hbreak h.1

/-- Level pieces without line breaks go on, and leave the counts as they are. -/
theorem unitSegments_level {brackets : Brackets} {top : Char → Prop} {pieces : List Piece}
    (h : Level brackets top pieces) (hbreak : '\n' ∉ pieces.flatMap Piece.chars)
    (braces parens : Nat) (rest : List Piece) :
    unitSegments braces parens (pieces ++ rest) =
      attach (pieces.flatMap Piece.chars) (unitSegments braces parens rest) := by
  induction h generalizing braces parens rest with
  | nil => exact (attach_nil (unitSegments_ne_nil _ _ _)).symm
  | literal _ ih =>
      rw [List.cons_append, unitSegments,
        ih fun hmem => hbreak (by rw [List.flatMap_cons]; exact List.mem_append_right _ hmem),
        ← attach_append]
      rfl
  | @char _ c tail hc _ _ ih =>
      obtain ⟨⟨hop, _, hob, _⟩, hcp, _, hcb, _⟩ := ne_bracket_of_inert hc
      have hno : c ≠ '\n' := fun heq => hbreak (by simp [Piece.chars, heq])
      rw [List.cons_append, unitSegments_cons hno, if_neg hob, if_neg hcb, if_neg hop, if_neg hcp,
        ih fun hmem => hbreak (List.mem_cons_of_mem _ hmem), ← attach_append]
      rfl
  | arrow _ _ _ ih =>
      rw [List.cons_append, List.cons_append, unitSegments_cons (by decide),
        unitSegments_cons (by decide)]
      show attach ['='] (attach ['>'] (unitSegments braces parens _)) = _
      rw [ih fun hmem => hbreak (List.mem_cons_of_mem _ (List.mem_cons_of_mem _ hmem)),
        ← attach_append, ← attach_append]
      rfl
  | @group _ opener closer inner tail hpair _ _ _ _ _ ihinner ih =>
      simp only [List.flatMap_cons, List.flatMap_append, Piece.chars, List.singleton_append,
        List.mem_cons, List.mem_append, not_or] at hbreak
      obtain ⟨hopen, hin, hclose, htail⟩ := hbreak
      rw [List.cons_append, List.append_assoc, List.cons_append,
        unitSegments_cons (Ne.symm hopen), ihinner hin, unitSegments_cons (Ne.symm hclose)]
      -- the closer takes back what the opener counts
      have hcounts : ∀ opened closed, opened = braces → closed = parens →
          attach [opener] (attach (inner.flatMap Piece.chars) (attach [closer]
            (unitSegments opened closed (tail ++ rest)))) =
          attach ((.char opener :: (inner ++ .char closer :: tail)).flatMap Piece.chars)
            (unitSegments braces parens rest) := by
        rintro _ _ rfl rfl
        rw [ih htail, ← attach_append, ← attach_append, ← attach_append]
        simp [Piece.chars]
      rcases pair_cases hpair with ⟨rfl, rfl⟩ | ⟨rfl, rfl⟩ | ⟨rfl, rfl⟩ | ⟨rfl, rfl⟩ <;>
        exact hcounts _ _ rfl rfl

/-- A balanced text without line breaks goes on, and leaves the counts as they are. -/
theorem unitSegments_balanced {brackets : Brackets} {top : Char → Prop} {text : Text}
    (h : Balanced brackets top text) (hbreak : '\n' ∉ text) (braces parens : Nat) (rest : Text) :
    unitSegments braces parens (pieces true (text ++ rest)) =
      attach text (unitSegments braces parens (pieces true rest)) := by
  obtain ⟨own, hlevel, hspell, hpieces⟩ := h.own true
  rw [← hspell] at hbreak
  rw [hpieces, unitSegments_level hlevel hbreak, hspell]

/-- Behind the rest of a line, the lines of a body are units. -/
theorem unitSegments_append_indented {brackets : Brackets} {top : Char → Prop} {text : Text}
    (hspace : top ' ') (htext : Balanced brackets top text ∧ '\n' ∉ text)
    (h : ∀ line ∈ written, Balanced brackets top line ∧ '\n' ∉ line) :
    unitSegments 0 0 (pieces true (text ++ indented indent written)) =
      (text :: written.map (List.replicate indent ' ' ++ ·)) ++ [[]] := by
  have hbreak : ∀ rest, unitSegments 0 0 (pieces true ('\n' :: rest)) =
      [] :: unitSegments 0 0 (pieces true rest) := by
    intro rest
    rw [pieces_cons (by decide) (by decide), unitSegments]
    exact if_pos ⟨rfl, rfl, rfl⟩
  -- a line goes on until the next break, so the indented first line takes the place of the text
  induction written generalizing text with
  | nil =>
      rw [unitSegments_balanced htext.1 htext.2]
      show attach text (unitSegments 0 0 (pieces true ['\n'])) = _
      rw [hbreak, pieces_nil, attach, List.append_nil]
      rfl
  | cons line rest ih =>
      have hline := h line List.mem_cons_self
      have hspaces : Balanced brackets top (List.replicate indent ' ') := by
        refine .of_ordinary fun c hc => ?_
        rw [List.eq_of_mem_replicate hc]
        exact ⟨by decide, hspace⟩
      have hno : '\n' ∉ List.replicate indent ' ' ++ line := by
        intro hmem
        rcases List.mem_append.mp hmem with hmem | hmem
        · exact absurd (List.eq_of_mem_replicate hmem) (by decide)
        · exact hline.2 hmem
      have hrest := ih ⟨hspaces.append hline.1, hno⟩ fun other hother =>
        h other (List.mem_cons_of_mem _ hother)
      rw [unitSegments_balanced htext.1 htext.2, indented_cons, List.cons_append, hbreak,
        ← List.append_assoc, hrest, attach, List.append_nil]
      rfl

/-- The units of an indented body are its lines, with their indent. -/
theorem units_indented {brackets : Brackets} {top : Char → Prop} (hspace : top ' ')
    (h : ∀ line ∈ written, Balanced brackets top line ∧ '\n' ∉ line) :
    units (indented indent written) = [] :: written.map (List.replicate indent ' ' ++ ·) := by
  have hsegments : unitSegments 0 0 (pieces true ([] ++ indented indent written)) =
      ([] :: written.map (List.replicate indent ' ' ++ ·)) ++ [[]] :=
    unitSegments_append_indented hspace ⟨.nil, List.not_mem_nil⟩ h
  rw [List.nil_append] at hsegments
  unfold units
  simp only [hsegments]
  rw [List.getLast?_concat, List.dropLast_concat, if_pos rfl]

end Cut

end Text

end ClassDiagram
