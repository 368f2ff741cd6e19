import ClassDiagram.Proofs.Scan.Indented
import ClassDiagram.Proofs.Scan.Nested
import ClassDiagram.Reader.TypeScriptMember

/-!
# Where the members of a TypeScript body divide

A body is cut at line breaks and semicolons. A text divides bodies if the members of a body that
begins with it are those of the text and those of the rest.

* `Divides.append`, `divides_spaces`, `divides_break`: texts that divide bodies. Whatever ends in a
  line break does, if no literal, brace or parenthesis is open there.
* `memberUnits_line`: a line divides bodies where it ends, and is one member.
-/

namespace ClassDiagram

namespace Text

/-- How many braces and parentheses are open behind some pieces. -/
def unitDepths (braces parens : Nat) : List Piece → Nat × Nat
  | [] => (braces, parens)
  | .literal _ :: rest => unitDepths braces parens rest
  | .char c :: rest =>
    unitDepths (if c = '\x7b' then braces + 1 else if c = '\x7d' then braces - 1 else braces)
      (if c = '(' then parens + 1 else if c = ')' then parens - 1 else parens) rest

/-- A line break cuts where no brace and no parenthesis is open. -/
theorem unitSegments_append_break {pieces : List Piece} {braces parens : Nat}
    (h : unitDepths braces parens pieces = (0, 0)) (rest : List Piece) :
    unitSegments braces parens (pieces ++ .char '\n' :: rest) =
      unitSegments braces parens pieces ++ unitSegments 0 0 rest := by
  induction pieces generalizing braces parens with
  | nil =>
      obtain ⟨rfl, rfl⟩ : braces = 0 ∧ parens = 0 := Prod.mk.injEq .. ▸ h
      rw [List.nil_append, unitSegments]
      rfl
  | cons piece tail ih =>
      cases piece with
      | literal value =>
          rw [List.cons_append, unitSegments, unitSegments, ih h,
            attach_append_right (unitSegments_ne_nil _ _ _)]
      | char c =>
          rw [unitDepths] at h
          rw [List.cons_append, unitSegments, unitSegments]
          rw [ih h]
          -- the same depths decide whether the character cuts, so what they are does not matter
          generalize (if c = '\x7b' then braces + 1 else if c = '\x7d' then braces - 1 else braces) =
            opened
          generalize (if c = '(' then parens + 1 else if c = ')' then parens - 1 else parens) = nested
          split
          · rfl
          · exact attach_append_right (unitSegments_ne_nil _ _ _) _ _

end Text

namespace TypeScript

open Text

variable {shape : Bool}

/-- The members in one unit of a body. -/
def lineUnits (shape : Bool) (line : Text) : List Text :=
  (line.splitTop (· == ';') false).flatMap fun statement =>
    if shape then statement.splitTop else [statement]

theorem lineUnits_nil : lineUnits shape [] = [] := by
  have hempty : splitTop [] (· == ';') false = [] := by decide +kernel
  rw [lineUnits, hempty, List.flatMap_nil]

/-- An empty unit at the end of a body holds no member, so that it need not be taken off. -/
theorem memberUnits_eq_flatMap (body : Text) :
    memberUnits shape body =
      (unitSegments 0 0 (pieces true body)).flatMap (lineUnits shape) := by
  show (units body).flatMap (lineUnits shape) = _
  unfold units
  dsimp only
  split
  · rename_i hlast
    obtain ⟨front, hfront⟩ := List.getLast?_eq_some_iff.mp hlast
    rw [hfront, List.dropLast_concat, List.flatMap_append, List.flatMap_singleton, lineUnits_nil,
      List.append_nil]
  · rfl

theorem memberUnits_nil : memberUnits shape [] = [] := by
  rw [memberUnits_eq_flatMap, pieces_nil, unitSegments, List.flatMap_singleton, lineUnits_nil]

/-- A space before a line is trimmed off. -/
theorem lineUnits_space (line : Text) : lineUnits shape (' ' :: line) = lineUnits shape line := by
  have hsegments : topSegments (· == ';') ⟨true, false⟩ 0 false (pieces false (' ' :: line)) =
      attach [' '] (topSegments (· == ';') ⟨true, false⟩ 0 false (pieces false line)) := by
    rw [pieces_cons (by decide) (by decide), topSegments_inert (by decide) _ (fun _ => by decide)]
  unfold lineUnits splitTop
  rw [hsegments]
  cases hrest : topSegments (· == ';') ⟨true, false⟩ 0 false (pieces false line) with
  | nil => exact absurd hrest (topSegments_ne_nil _ _ _ _ _)
  | cons first others => rfl

/-- A space at the front of a body is lost. -/
theorem memberUnits_space (body : Text) :
    memberUnits shape (' ' :: body) = memberUnits shape body := by
  rw [memberUnits_eq_flatMap, memberUnits_eq_flatMap, pieces_cons (by decide) (by decide),
    unitSegments_cons (by decide)]
  show (attach [' '] (unitSegments 0 0 (pieces true body))).flatMap _ = _
  cases hrest : unitSegments 0 0 (pieces true body) with
  | nil => exact absurd hrest (unitSegments_ne_nil _ _ _)
  | cons first others =>
      rw [attach, List.flatMap_cons, List.flatMap_cons, List.singleton_append, lineUnits_space]

/-! ## Texts that divide bodies -/

/-- Whether the members of every body that begins with a text are those of the text and those of the
rest. -/
def Divides (shape : Bool) (before : Text) : Prop :=
  ∀ rest, memberUnits shape (before ++ rest) = memberUnits shape before ++ memberUnits shape rest

/-- Spaces divide a body from what follows them. -/
theorem divides_spaces (count : Nat) : Divides shape (List.replicate count ' ') := by
  have hlost : ∀ rest, memberUnits shape (List.replicate count ' ' ++ rest) =
      memberUnits shape rest := by
    intro rest
    induction count with
    | zero => rfl
    | succ count ih => rw [List.replicate_succ, List.cons_append, memberUnits_space, ih]
  intro rest
  have hnone := hlost []
  rw [List.append_nil, memberUnits_nil] at hnone
  rw [hlost, hnone, List.nil_append]

/-- Texts that divide bodies do so side by side. -/
theorem Divides.append {before behind : Text} (h : Divides shape before)
    (hbehind : Divides shape behind) : Divides shape (before ++ behind) := by
  intro rest
  rw [List.append_assoc, h, hbehind, h, List.append_assoc]

/-- The facts of a body that is divided. -/
theorem Divides.memberFacts_append {before : Text} (h : Divides shape before) (owner : String)
    (rest : Text) :
    memberFacts owner shape (before ++ rest) =
      memberFacts owner shape before ++ memberFacts owner shape rest := by
  rw [memberFacts, h, List.flatMap_append]
  rfl

/-- A line break divides bodies where no literal, no brace and no parenthesis is open. -/
theorem divides_break {before : Text} {own : List Piece}
    (hown : ∀ rest, pieces true (before ++ '\n' :: rest) = own ++ .char '\n' :: pieces true rest)
    (hclosed : unitDepths 0 0 own = (0, 0)) : Divides shape (before ++ ['\n']) := by
  have hall : ∀ rest, memberUnits shape (before ++ '\n' :: rest) =
      (unitSegments 0 0 own).flatMap (lineUnits shape) ++ memberUnits shape rest := by
    intro rest
    rw [memberUnits_eq_flatMap, hown, unitSegments_append_break hclosed, List.flatMap_append,
      ← memberUnits_eq_flatMap]
  intro rest
  have hown := hall []
  rw [memberUnits_nil, List.append_nil] at hown
  rw [List.append_assoc, List.singleton_append, hall, hown]

/-- A text that leaves no brace or parenthesis open divides at its line break. -/
theorem divides_unquoted {before : Text} (h : Unquoted before)
    (hclosed : unitDepths 0 0 (before.map Piece.char) = (0, 0)) :
    Divides shape (before ++ ['\n']) :=
  divides_break (pieces_append_cons h (by decide) (by decide) true) hclosed

/-! ## Lines -/

/-- A text that is one member on one line: its brackets pair up, and it holds no semicolon and no
comma outside of brackets. -/
structure IsLine (line : Text) : Prop where
  tidy : Tidy line
  nested : Nested (· ≠ ',') line
  whole : '\n' ∉ line ∧ ';' ∉ line

/-- Two lines with a space between them are one line. -/
theorem IsLine.spaced {line other : Text} (h : IsLine line) (hother : IsLine other) :
    IsLine (line ++ ' ' :: other) where
  tidy := h.tidy.spaced hother.tidy
  nested := by
    have hspace : Nested (· ≠ ',') [' '] := .of_inert (forall_chars (by decide))
    exact h.nested.append (hspace.append hother.nested)
  whole := by
    have hno : ∀ c, c ≠ ' ' → c ∉ line → c ∉ other → c ∉ line ++ ' ' :: other := by
      intro c hspace hline hbehind
      simp [hspace, hline, hbehind]
    exact ⟨hno _ (by decide) h.whole.1 hother.whole.1, hno _ (by decide) h.whole.2 hother.whole.2⟩

section Line

variable {line : Text} (h : IsLine line)
include h

/-- No semicolon cuts a line. -/
theorem topSegments_line (rest : List Piece) :
    topSegments (· == ';') ⟨true, false⟩ 0 false (line.map Piece.char ++ rest) =
      attach line (topSegments (· == ';') ⟨true, false⟩ 0 false rest) := by
  have hnone : ∀ c ∈ (line.map Piece.char).flatMap Piece.chars, (c == ';') = false := by
    rw [flatMap_chars_map]
    exact fun c hc => beq_eq_false_iff_ne.mpr fun heq => h.whole.2 (heq ▸ hc)
  rw [topSegments_level_of_none h.nested.level hnone, flatMap_chars_map]

/-- What is one statement is one member. -/
theorem flatMap_line (statements : List Text) :
    ((line :: statements).flatMap fun statement =>
        if shape then statement.splitTop else [statement]) =
      line :: statements.flatMap fun statement =>
        if shape then statement.splitTop else [statement] := by
  have hone : splitTop line = [line] :=
    splitTop_nested h.nested (fun _ hc => beq_eq_false_iff_ne.mpr hc) h.tidy h.tidy.strip
  rw [List.flatMap_cons, hone, ite_self, List.singleton_append]

/-- A line is one member. -/
theorem lineUnits_line : lineUnits shape line = [line] := by
  have hsegments := topSegments_line h []
  rw [List.append_nil, topSegments, attach, List.append_nil] at hsegments
  unfold lineUnits
  rw [splitTop, pieces_of_unquoted h.nested.unquoted, hsegments, List.map_cons, h.tidy.strip,
    List.filter_cons_of_pos (by simpa using h.tidy.ne_nil), flatMap_line h]
  rfl

/-- A line up to a semicolon is the first member, whatever follows. -/
theorem lineUnits_semicolon (rest : Text) :
    lineUnits shape (line ++ ';' :: rest) = line :: lineUnits shape rest := by
  unfold lineUnits
  rw [splitTop, pieces_append_cons h.nested.unquoted (by decide) (by decide), topSegments_line h,
    topSegments, if_pos ⟨rfl, rfl⟩, attach, List.append_nil, List.map_cons, h.tidy.strip,
    List.filter_cons_of_pos (by simpa using h.tidy.ne_nil), flatMap_line h]
  rfl

/-- A line divides bodies where it ends, and is one member. -/
theorem memberUnits_line {mark : Char} (hmark : mark = '\n' ∨ mark = ';') (rest : Text) :
    memberUnits shape (line ++ mark :: rest) = line :: memberUnits shape rest := by
  have hbreak : '\n' ∉ (line.map Piece.char).flatMap Piece.chars := by
    rw [flatMap_chars_map]
    exact h.whole.1
  have hpieces : pieces true (line ++ mark :: rest) =
      line.map Piece.char ++ .char mark :: pieces true rest := by
    rcases hmark with rfl | rfl <;>
      exact pieces_append_cons h.nested.unquoted (by decide) (by decide) true rest
  rw [memberUnits_eq_flatMap, memberUnits_eq_flatMap, hpieces,
    unitSegments_level h.nested.level hbreak, flatMap_chars_map]
  -- a line break ends the unit, a semicolon ends the member within it
  rcases hmark with rfl | rfl
  · rw [unitSegments, if_pos ⟨rfl, rfl, rfl⟩, attach, List.append_nil, List.flatMap_cons,
      lineUnits_line h]
    rfl
  · rw [unitSegments_cons (by decide), ← attach_append]
    show (attach (line ++ [';']) (unitSegments 0 0 (pieces true rest))).flatMap _ = _
    cases hrest : unitSegments 0 0 (pieces true rest) with
    | nil => exact absurd hrest (unitSegments_ne_nil _ _ _)
    | cons first others =>
        rw [attach, List.flatMap_cons, List.flatMap_cons, List.append_assoc, List.singleton_append,
          lineUnits_semicolon h, List.cons_append]

/-- A line and its end tell what the member tells, then what the rest tells. -/
theorem memberFacts_line (owner : String) {mark : Char} (hmark : mark = '\n' ∨ mark = ';')
    (rest : Text) :
    memberFacts owner shape (line ++ mark :: rest) =
      unitFacts owner line ++ memberFacts owner shape rest := by
  rw [memberFacts, memberUnits_line h hmark, List.flatMap_cons]
  rfl

end Line

end TypeScript

end ClassDiagram
