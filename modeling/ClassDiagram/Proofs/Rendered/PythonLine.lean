import ClassDiagram.Proofs.Scan.Indented
import ClassDiagram.Proofs.Scan.LogicalLine

/-!
# Written lines of Python

Lines that are written one below the other, each behind its indentation, are read back as logical
lines.

* `scan_balanced`: reading passes over a balanced text without breaks and comments.
* `logicalLines_written`: written lines are the logical lines.
-/

namespace ClassDiagram

namespace Python

open Text

/-- A character that neither ends a line nor starts a comment or literal. -/
def isLineChar (c : Char) : Bool := !(['"', '\'', '#', '\\', '\n'].contains c)

/-- A character of a line stays in the line and may change the depth. -/
theorem scan_cons {c : Char} (h : isLineChar c = true) (depth : Nat) (rest : Text) :
    scan depth (c :: rest) =
      prepend [c] (scan (lineBrackets.depthAfter depth false c) rest) := by
  simp only [isLineChar, Bool.not_eq_true', List.contains_eq_mem, decide_eq_false_iff_not,
    List.mem_cons, List.not_mem_nil, or_false, not_or] at h
  obtain ⟨hdouble, hsingle, hhash, hslash, hbreak⟩ := h
  rw [scan, if_neg fun hc => hc.elim hdouble hsingle, if_neg hhash, if_neg fun hc => hslash hc.1,
    if_neg hbreak]

theorem prepend_append (front back : Text) (lines : Text × List (Nat × Text)) :
    prepend (front ++ back) lines = prepend front (prepend back lines) := by
  rw [prepend, prepend, prepend, List.append_assoc]

/-- A text over which reading passes, without a change in depth. -/
def StaysInLine (text : Text) : Prop :=
  ∀ depth rest, scan depth (text ++ rest) = prepend text (scan depth rest)

/-- Texts that stay in their line do so side by side. -/
theorem StaysInLine.append {front back : Text} (hfront : StaysInLine front)
    (hback : StaysInLine back) : StaysInLine (front ++ back) := by
  intro depth rest
  rw [List.append_assoc, hfront, hback, prepend_append]

/-- Reading passes over a character that is no bracket. -/
theorem StaysInLine.cons {c : Char} {text : Text} (hc : isLineChar c = true)
    (hdepth : ∀ depth, lineBrackets.depthAfter depth false c = depth) (h : StaysInLine text) :
    StaysInLine (c :: text) := by
  intro depth rest
  rw [List.cons_append, scan_cons hc, hdepth, h]
  rfl

theorem StaysInLine.nil : StaysInLine [] := fun _ _ => rfl

/-- What may stand in a line, apart from double quotes. -/
theorem isLineChar_of_ordinary {c : Char} (h : isOrdinary c = true) (hhash : c ≠ '#')
    (hslash : c ≠ '\\') (hbreak : c ≠ '\n') : isLineChar c = true := by
  have hquote := not_quote_of_ordinary h
  simp only [Literal.isQuote, Bool.or_eq_false_iff, beq_eq_false_iff_ne] at hquote
  simp [isLineChar, hquote, hhash, hslash, hbreak]

/-- Reading passes over a literal as a whole, unless it begins with three quotes. -/
theorem scan_literal {inner rest : Text} (hinner : ∀ c ∈ inner, isQuotable c = true)
    (htriple : ¬ (['"', '"'].isPrefixOf (inner ++ '"' :: rest) = true)) (depth : Nat) :
    scan depth ('"' :: (inner ++ ['"']) ++ rest) =
      prepend ('"' :: (inner ++ ['"'])) (scan depth rest) := by
  have hbody : Literal.escapedBody '"' (inner ++ '"' :: rest) = (inner ++ ['"'], rest) :=
    escapedBody_append_quote (by decide) (fun c hc => isQuotable_iff.mp (hinner c hc)) rest
  rw [List.cons_append, List.append_assoc, List.singleton_append, scan_cons_eq,
    move_of_quote (.inl rfl), if_neg htriple, hbody]
  rfl

/-- A literal that is not empty does not begin with three quotes. -/
theorem scan_quoted {inner : Text} (hne : inner ≠ []) (hinner : ∀ c ∈ inner, isQuotable c = true) :
    StaysInLine ('"' :: (inner ++ ['"'])) := by
  intro depth rest
  refine scan_literal hinner ?_ depth
  obtain ⟨c, others, rfl⟩ := List.exists_cons_of_ne_nil hne
  have hc : c ≠ '"' := (isQuotable_iff.mp (hinner c List.mem_cons_self)).1
  simp [hc.symm]

/-- Reading passes over a balanced text without breaks and comments. -/
theorem scan_balanced {top : Char → Prop} {text : Text} (h : Balanced lineBrackets top text)
    (hline : ∀ c ∈ text, c ∉ ['#', '\\', '\n']) : StaysInLine text := by
  induction h with
  | nil => exact .nil
  | @char _ c tail hc _ _ ih =>
      have hother := hline c List.mem_cons_self
      simp only [List.mem_cons, List.not_mem_nil, or_false, not_or] at hother
      refine .cons (isLineChar_of_ordinary hc hother.1 hother.2.1 hother.2.2) ?_
        (ih fun d hd => hline d (List.mem_cons_of_mem _ hd))
      exact fun depth => depthAfter_of_ordinary hc lineBrackets depth false
  | arrow _ _ _ ih =>
      refine .cons (by decide) (fun _ => rfl) (.cons (by decide) (fun _ => rfl) (ih fun d hd => ?_))
      exact hline d (List.mem_cons_of_mem _ (List.mem_cons_of_mem _ hd))
  | @group _ opener closer inner tail hpair _ _ _ _ _ ihinner ih =>
      have hchars : isLineChar opener = true ∧ isLineChar closer = true := by
        rcases pair_cases hpair with ⟨rfl, rfl⟩ | ⟨rfl, rfl⟩ | ⟨rfl, rfl⟩ | ⟨rfl, rfl⟩ <;> decide
      have hinner := ihinner fun d hd => hline d (by simp [hd])
      have htail := ih fun d hd => hline d (by simp [hd])
      intro depth rest
      -- angle brackets do not count in a line, so the inside may be no deeper
      obtain ⟨inside, hopen, hclose⟩ := exists_depthAfter hpair lineBrackets depth
      rw [List.cons_append, List.append_assoc, List.cons_append, scan_cons hchars.1, hopen, hinner,
        scan_cons hchars.2, hclose, htail, ← prepend_append, ← prepend_append, ← prepend_append]
      simp
  | @quoted _ inner tail _ hin _ _ _ ih =>
      have hall := (scan_quoted hin.1 hin.2).append (ih fun d hd => hline d (by simp [hd]))
      rwa [List.cons_append, List.append_assoc, List.singleton_append] at hall

/-! ## Lines one below the other -/

/-- Lines as they are written: each behind its indentation, with a line break at its end. -/
def writtenLines (lines : List LogicalLine) : Text :=
  lines.flatMap fun line => List.replicate line.indent ' ' ++ (line.text ++ ['\n'])

/-- Spaces are as many columns. -/
theorem columns_spaces (indent : Nat) : columns (List.replicate indent ' ') = indent := by
  induction indent with
  | zero => rfl
  | succ indent ih =>
      show 1 + columns (List.replicate indent ' ') = indent + 1
      rw [ih, Nat.add_comm]

/-- The indent of a line is the number of its spaces. -/
theorem splitIndent_spaces (indent : Nat) {text : Text} (h : Tidy text) (rest : Text) :
    splitIndent (List.replicate indent ' ' ++ (text ++ rest)) = (indent, text ++ rest) := by
  have hspaces : ∀ c ∈ List.replicate indent ' ', isIndent c = true := by
    intro c hc
    rw [List.eq_of_mem_replicate hc]
    decide
  -- a tidy text starts with no blank, which ends the indentation
  have hstop : (text ++ rest).takeWhile isIndent = [] ∧
      (text ++ rest).dropWhile isIndent = text ++ rest := by
    cases htext : text with
    | nil => exact absurd htext h.ne_nil
    | cons c others =>
        have hblank : isBlank c = false := h.head_not_blank (by rw [htext]; rfl)
        have hc : ¬ (isIndent c = true) := by
          intro hindent
          simp only [isIndent, Bool.or_eq_true, beq_iff_eq] at hindent
          rcases hindent with rfl | rfl <;> exact absurd hblank (by decide)
        rw [List.cons_append]
        exact ⟨List.takeWhile_cons_of_neg hc, List.dropWhile_cons_of_neg hc⟩
  unfold splitIndent
  rw [List.takeWhile_append_of_pos hspaces, List.dropWhile_append_of_pos hspaces, hstop.1, hstop.2,
    List.append_nil, columns_spaces]

/-- A line break outside of brackets starts a new line. -/
theorem scan_break (rest : Text) : scan 0 ('\n' :: rest) = ([], rawLines rest) := by
  rw [scan, if_neg (by decide), if_neg (by decide), if_neg fun h => absurd h.1 (by decide),
    if_pos rfl, if_neg (by decide)]
  rfl

/-- A written line is the first one. -/
theorem rawLines_line (indent : Nat) {text : Text} (htidy : Tidy text) (h : StaysInLine text)
    (rest : Text) :
    rawLines (List.replicate indent ' ' ++ (text ++ '\n' :: rest)) =
      (indent, text) :: rawLines rest := by
  unfold rawLines
  rw [splitIndent_spaces indent htidy]
  simp only [h 0 _, scan_break, prepend, List.append_nil]
  rfl

/-- A written line is the first logical line. -/
theorem logicalLines_line (indent : Nat) {text : Text} (htidy : Tidy text) (h : StaysInLine text)
    (rest : Text) :
    logicalLines (List.replicate indent ' ' ++ (text ++ '\n' :: rest)) =
      ⟨indent, text⟩ :: logicalLines rest := by
  have hkept : text.isEmpty = false := by simpa using htidy.ne_nil
  unfold logicalLines
  rw [rawLines_line indent htidy h, List.filterMap_cons]
  simp only [htidy.strip, hkept, Bool.false_eq_true, if_false]

/-- Written lines are the logical lines. -/
theorem logicalLines_written {lines : List LogicalLine}
    (h : ∀ line ∈ lines, Tidy line.text ∧ StaysInLine line.text) :
    logicalLines (writtenLines lines) = lines := by
  induction lines with
  | nil =>
      show (rawLines []).filterMap _ = []
      rw [rawLines_nil]
      rfl
  | cons line rest ih =>
      obtain ⟨htidy, hline⟩ := h line List.mem_cons_self
      have hrest := ih fun other hother => h other (List.mem_cons_of_mem _ hother)
      rw [writtenLines, List.flatMap_cons, List.append_assoc, List.append_assoc,
        List.singleton_append, logicalLines_line line.indent htidy hline]
      exact congrArg (line :: ·) hrest

end Python

end ClassDiagram
