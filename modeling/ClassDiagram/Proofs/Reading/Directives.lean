import ClassDiagram.Proofs.Scan.Plain
import ClassDiagram.Proofs.Text.Mark
import ClassDiagram.Reader.CSharp

/-!
# Directives

The lines of C# sources that hold a directive are emptied before literals are masked. A line is told
by its first sign behind spaces and tabs alone, wherever it stands.

* `dropDirectives_of_not_mem`: a text without number signs stays as it is.
* `dropDirectives_enclosed`: what is left of a text between two signs, and of what surrounds it.
* `hide_clearInner`: the shape of what is left.
-/

namespace ClassDiagram

namespace CSharp

open Text

/-- Whether a line holds a directive: a number sign with nothing but spaces and tabs before it. -/
def isDirective (line : Text) : Bool :=
  (line.dropWhile fun c => c == ' ' || c == '\t').head? == some '#'

/-- The lines of a text that begin in it: all but the first. -/
def innerLines (text : Text) : List Text := (text.cut (· == '\n')).tail

/-- A line without its directive. -/
def clearLine (line : Text) : Text := if isDirective line then [] else line

/-- Dropping directives clears them line by line. -/
theorem dropDirectives_eq (text : Text) :
    dropDirectives text = join ['\n'] ((text.cut (· == '\n')).map clearLine) := by
  unfold dropDirectives clearLine isDirective
  simp only [beq_iff_eq]

/-- A sign other than a space, a tab or a number sign settles what a line holds. -/
theorem isDirective_append {c : Char} (hc : c ≠ ' ' ∧ c ≠ '\t' ∧ c ≠ '#') (line rest : Text) :
    isDirective (line ++ c :: rest) = isDirective line := by
  obtain ⟨hspace, htab, hsign⟩ := hc
  unfold isDirective
  induction line with
  | nil => simp [hspace, htab, hsign]
  | cons d line ih =>
      rw [List.cons_append, List.dropWhile_cons, List.dropWhile_cons]
      split
      · exact ih
      · rfl

/-- A line without a hash sign is no directive. -/
theorem isDirective_of_not_mem {line : Text} (h : '#' ∉ line) : isDirective line = false := by
  refine beq_eq_false_iff_ne.mpr fun hhead => h ?_
  exact List.dropWhile_subset _ (List.mem_of_mem_head? hhead)

/-- No line of a text without number signs holds a directive. -/
theorem isDirective_of_mem_cut {text line : Text} (h : '#' ∉ text)
    (hline : line ∈ text.cut (· == '\n')) : isDirective line = false :=
  isDirective_of_not_mem fun hmem => h (mem_of_mem_cut hline hmem)

theorem clearLine_of_not {line : Text} (h : isDirective line = false) : clearLine line = line := by
  rw [clearLine, h]
  rfl

theorem clearLine_of_directive {line : Text} (h : isDirective line = true) :
    clearLine line = [] := by
  rw [clearLine, h]
  rfl

/-- If no line is a directive, all lines stay. -/
theorem map_clearLine_of_none {lines : List Text} (h : ∀ line ∈ lines, isDirective line = false) :
    lines.map clearLine = lines := by
  conv => rhs; rw [← List.map_id lines]
  exact List.map_congr_left fun line hline => clearLine_of_not (h line hline)

/-- A text without number signs stays as it is. -/
theorem dropDirectives_of_not_mem {text : Text} (h : '#' ∉ text) : dropDirectives text = text := by
  rw [dropDirectives_eq, map_clearLine_of_none fun _ hline => isDirective_of_mem_cut h hline,
    join_cut]

/-! ## Directives between two signs

A sign that settles its line parts a text: what stands before it decides whether its line is a
directive, and the lines behind it are told on their own. -/

/-- A text that continues a line, without the directives that begin in it. -/
def clearInner (text : Text) : Text :=
  join ['\n'] ((text.cut (· == '\n')).head (cut_ne_nil _ _) :: (innerLines text).map clearLine)

/-- Whether the last of some lines is a directive. -/
def endsInDirective (lines : List Text) : Bool := lines.getLast?.any isDirective

/-- Whether the last line is a directive, by what each line is. -/
theorem endsInDirective_eq (lines : List Text) :
    endsInDirective lines = (lines.map isDirective).getLast?.any id := by
  rw [endsInDirective, List.getLast?_map, Option.any_map]
  rfl

/-- Lines are joined in two parts where a line is cut in two. -/
theorem join_merge (separator : Text) (lines : List Text) (last more : Text) (others : List Text) :
    join separator (lines ++ (last ++ more) :: others) =
      join separator (lines ++ [last]) ++ join separator (more :: others) := by
  simp only [join]
  induction lines with
  | nil =>
      cases others with
      | nil => simp
      | cons second others => simp [List.intercalate_cons_cons]
  | cons line lines ih =>
      rw [List.cons_append, List.cons_append, List.intercalate_cons_of_ne_nil (by simp),
        List.intercalate_cons_of_ne_nil (by simp), ih]
      simp only [List.append_assoc]

theorem join_cons_cons (separator : Text) (c : Char) (line : Text) (others : List Text) :
    join separator ((c :: line) :: others) = c :: join separator (line :: others) :=
  join_merge separator [] [c] line others

/-- The lines of a text are the first one and the inner ones. -/
theorem cut_eq_cons (text : Text) :
    text.cut (· == '\n') = (text.cut (· == '\n')).head (cut_ne_nil _ _) :: innerLines text :=
  (List.cons_head_tail _).symm

/-- The lines that begin in a text, with the breaks before them. -/
theorem join_innerLines (text : Text) :
    join ['\n'] ([] :: innerLines text) = text.dropWhile (· != '\n') := by
  induction text with
  | nil => rfl
  | cons c rest ih =>
      by_cases hc : c = '\n'
      · subst hc
        have hlines : innerLines ('\n' :: rest) = cut (· == '\n') rest := by
          rw [innerLines, cut, if_pos (by rfl)]
          rfl
        rw [hlines, join, List.intercalate_cons_of_ne_nil (cut_ne_nil _ _), ← join, join_cut]
        rfl
      · have hlines : innerLines (c :: rest) = innerLines rest := by
          rw [innerLines, cut, if_neg (by simp [hc]), cut_eq_cons rest]
          rfl
        rw [hlines, ih, List.dropWhile_cons_of_pos (by simp [hc])]

section Parted

variable {c : Char} {before after : Text}

/-- The lines of a text parted by a sign. -/
theorem exists_cut_sign (hbreak : c ≠ '\n') (before after : Text) :
    ∃ init last head, before.cut (· == '\n') = init ++ [last] ∧
      after.cut (· == '\n') = head :: innerLines after ∧
      (before ++ c :: after).cut (· == '\n') = init ++ (last ++ c :: head) :: innerLines after := by
  obtain ⟨init, last, first, others, hbefore, hfirst, hwhole⟩ :=
    exists_cut_append (· == '\n') before (c :: after)
  rw [cut, if_neg (by simp [hbreak]), cut_eq_cons after] at hfirst
  obtain ⟨rfl, rfl⟩ := List.cons.inj hfirst
  exact ⟨init, last, _, hbefore, cut_eq_cons after, hwhole⟩

/-- Behind a sign that settles its line, only the lines that begin there are dropped. -/
theorem dropDirectives_before (hc : c ≠ ' ' ∧ c ≠ '\t' ∧ c ≠ '#') (hbreak : c ≠ '\n')
    (hbefore : '#' ∉ before) (after : Text) :
    dropDirectives (before ++ c :: after) = before ++ c :: clearInner after := by
  obtain ⟨init, last, head, hcut, hafter, hwhole⟩ := exists_cut_sign hbreak before after
  have hnone : ∀ line ∈ init ++ [last], isDirective line = false := fun _ hline =>
    isDirective_of_mem_cut hbefore (hcut ▸ hline)
  have hsettled : clearLine (last ++ c :: head) = last ++ c :: head := by
    refine clearLine_of_not ?_
    rw [isDirective_append hc]
    exact hnone last (List.mem_append_right _ List.mem_cons_self)
  have hinit : init.map clearLine = init :=
    map_clearLine_of_none fun line hline => hnone line (List.mem_append_left _ hline)
  rw [dropDirectives_eq, hwhole, List.map_append, List.map_cons, hinit, hsettled, join_merge,
    ← hcut, join_cut, join_cons_cons, clearInner]
  simp only [hafter, List.head_cons]

/-- A directive takes all of its line with it, also what stands behind a sign; else all of that is
kept. -/
theorem dropDirectives_behind (hc : c ≠ ' ' ∧ c ≠ '\t' ∧ c ≠ '#') (hbreak : c ≠ '\n')
    (hafter : '#' ∉ after) (before : Text) :
    dropDirectives (before ++ c :: after) = dropDirectives before ++
      if endsInDirective (before.cut (· == '\n')) = true then after.dropWhile (· != '\n')
      else c :: after := by
  obtain ⟨init, last, head, hcut, hcutAfter, hwhole⟩ := exists_cut_sign hbreak before after
  have hinner : (innerLines after).map clearLine = innerLines after := by
    refine map_clearLine_of_none fun line hline => ?_
    exact isDirective_of_mem_cut hafter (hcutAfter ▸ List.mem_cons_of_mem _ hline)
  have hends : endsInDirective (before.cut (· == '\n')) = isDirective last := by
    rw [endsInDirective, hcut, List.getLast?_concat]
    rfl
  rw [dropDirectives_eq, dropDirectives_eq, hends, hwhole, hcut, List.map_append, List.map_append,
    List.map_cons, hinner, List.map_singleton]
  -- the line of the sign is a directive if what stands before the sign on it is one
  cases hlast : isDirective last with
  | true =>
      rw [clearLine_of_directive hlast,
        clearLine_of_directive ((isDirective_append hc _ _).trans hlast), ← join_innerLines]
      exact join_merge ['\n'] _ [] [] _
  | false =>
      rw [clearLine_of_not hlast, clearLine_of_not ((isDirective_append hc _ _).trans hlast),
        join_merge, join_cons_cons, ← hcutAfter, join_cut]
      rfl

/-- A text between two signs loses the directives that begin in it. If the last line is one, it
takes what stands behind the second sign on its line with it. -/
theorem dropDirectives_enclosed (hc : c ≠ ' ' ∧ c ≠ '\t' ∧ c ≠ '#') (hbreak : c ≠ '\n')
    (hbefore : '#' ∉ before) (hafter : '#' ∉ after) (inner : Text) :
    dropDirectives (before ++ c :: (inner ++ c :: after)) = before ++ c :: (clearInner inner ++
      if endsInDirective (innerLines inner) = true then after.dropWhile (· != '\n')
      else c :: after) := by
  have hends : endsInDirective ((before ++ c :: inner).cut (· == '\n')) =
      endsInDirective (innerLines inner) := by
    obtain ⟨init, last, head, hcut, -, hwhole⟩ := exists_cut_sign hbreak before inner
    unfold endsInDirective
    rw [hwhole]
    cases hinner : innerLines inner with
    | nil =>
        rw [List.getLast?_concat, Option.any_some, isDirective_append hc]
        exact isDirective_of_mem_cut hbefore (hcut ▸ List.mem_append_right _ List.mem_cons_self)
    | cons line lines => rw [List.getLast?_append_of_ne_nil _ (by simp), List.getLast?_cons_cons]
  rw [← List.cons_append, ← List.append_assoc, dropDirectives_behind hc hbreak hafter, hends,
    dropDirectives_before hc hbreak hbefore, List.append_assoc]
  rfl

end Parted

/-! ## The shape of what is left -/

/-- Hiding goes line by line. -/
theorem hide_join (lines : List Text) :
    hide (join ['\n'] lines) = join ['\n'] (lines.map hide) := by
  induction lines with
  | nil => rfl
  | cons line lines ih =>
      cases lines with
      | nil => simp [join]
      | cons second lines =>
          simp only [hide, join, List.map_cons, List.intercalate_cons_cons, List.map_append] at ih ⊢
          rw [ih]
          rfl

/-- Hiding keeps the lines apart. -/
theorem cut_hide (text : Text) :
    (hide text).cut (· == '\n') = (text.cut (· == '\n')).map hide := by
  induction text with
  | nil => rfl
  | cons c rest ih =>
      have hrest := cut_eq_cons rest
      have hhide : hide (c :: rest) = hideChar c :: hide rest := rfl
      rw [hhide, cut, cut, ih]
      by_cases hc : c = '\n'
      · subst hc
        rfl
      · have hsame : (hideChar c == '\n') = false := by simp [hideChar, hc]
        rw [if_neg (by simp [hsame]), if_neg (by simp [hc]), hrest]
        rfl

/-- Hiding keeps the end of the first line where it is. -/
theorem hide_dropWhile (text : Text) :
    hide (text.dropWhile (· != '\n')) = (hide text).dropWhile (· != '\n') := by
  have hbreak : (fun c => c != '\n') ∘ hideChar = fun c => c != '\n' := by
    funext c
    by_cases hc : c = '\n' <;> simp [hideChar, hc]
  rw [hide, hide, List.dropWhile_map, hbreak]

/-- Lines of the same shape are of the same shape when the same of them are cleared. -/
theorem map_hide_clearLine {lines others : List Text} (hshape : lines.map hide = others.map hide)
    (hsame : lines.map isDirective = others.map isDirective) :
    (lines.map clearLine).map hide = (others.map clearLine).map hide := by
  induction lines generalizing others with
  | nil => rw [List.map_eq_nil_iff.mp hshape.symm]
  | cons line lines ih =>
      cases others with
      | nil => exact absurd hshape (by simp)
      | cons other others =>
          obtain ⟨hline, hlines⟩ := List.cons.inj hshape
          obtain ⟨hdirective, hdirectives⟩ := List.cons.inj hsame
          have hfirst : hide (clearLine line) = hide (clearLine other) := by
            unfold clearLine
            rw [hdirective]
            split
            · rfl
            · exact hline
          simp only [List.map_cons, hfirst, ih hlines hdirectives]

/-- The shape of what is left shows which lines were dropped, and nothing else of them. -/
theorem hide_clearInner {text other : Text} (hshape : hide text = hide other)
    (hsame : (innerLines text).map isDirective = (innerLines other).map isDirective) :
    hide (clearInner text) = hide (clearInner other) := by
  have hlines : (text.cut (· == '\n')).map hide = (other.cut (· == '\n')).map hide := by
    rw [← cut_hide, ← cut_hide, hshape]
  rw [cut_eq_cons text, cut_eq_cons other, List.map_cons, List.map_cons] at hlines
  obtain ⟨hhead, hinner⟩ := List.cons.inj hlines
  rw [clearInner, clearInner, hide_join, hide_join, List.map_cons, List.map_cons, hhead,
    map_hide_clearLine hinner hsame]

/-- Clearing adds nothing. -/
theorem mem_of_mem_clearInner {text : Text} {c : Char} (hc : c ≠ '\n') (h : c ∈ clearInner text) :
    c ∈ text := by
  rcases mem_join h with hbreak | ⟨line, hline, hmem⟩
  · exact absurd (List.mem_singleton.mp hbreak) hc
  · rcases List.mem_cons.mp hline with rfl | hline
    · exact mem_of_mem_cut (List.head_mem _) hmem
    · obtain ⟨whole, hwhole, rfl⟩ := List.mem_map.mp hline
      unfold clearLine at hmem
      split at hmem
      · exact absurd hmem List.not_mem_nil
      · exact mem_of_mem_cut (List.mem_of_mem_tail hwhole) hmem

end CSharp

end ClassDiagram
