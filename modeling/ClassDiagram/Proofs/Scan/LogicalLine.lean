import ClassDiagram.Proofs.Scan.Balanced
import ClassDiagram.Reader.PythonLine

/-!
# Reading logical lines step by step

Reading logical lines looks ahead as far as it has to: to the end of a literal, a comment or a
string in triple quotes. One step takes all of that off the front of the text. So a text that is
read up to a line break that counts leaves nothing open, and what follows it is read as if it stood
alone.

* `Python.move`: one step, and `Python.scan_cons_eq`: reading is made of such steps.
* `Python.move_append`: a step that leaves something behind does not depend on what comes later.
* `Python.endsAtBreak`: reading ends right behind a line break that counts.
* `Python.logicalLines_append`: the lines of two texts, one behind the other.
-/

namespace ClassDiagram

namespace Literal

/-- A literal that something follows ends where it does whatever comes later. -/
theorem escapedBody_append_right {quote : Char} {text : Text}
    (h : (escapedBody quote text).2 ≠ []) (more : Text) :
    escapedBody quote (text ++ more) =
      ((escapedBody quote text).1, (escapedBody quote text).2 ++ more) := by
  fun_induction escapedBody quote text with
  | case1 => exact absurd rfl h
  | case2 c rest ih =>
      rw [List.cons_append, List.cons_append, escapedBody, ih h]
  | case3 rest hescape =>
      -- a backslash that ends the text leaves nothing, so this is no escape with `more` either
      rw [List.cons_append, escapedBody, if_pos rfl]
      intro d tail hquote hrest
      cases rest with
      | nil => exact h rfl
      | cons e rest => exact hescape e rest hquote rfl
  | case4 c rest hescape hquote hbreak =>
      rw [List.cons_append, escapedBody, if_neg hquote, if_pos hbreak]
      intro d tail hc
      exact absurd (hbreak.1.symm.trans hc) (by decide)
  | case5 c rest hescape hquote hbreak ih =>
      rw [List.cons_append, escapedBody, if_neg hquote, if_neg hbreak, ih h]
      intro d tail hc hrest
      cases rest with
      | nil => exact h rfl
      | cons e rest => exact hescape e rest hc rfl

end Literal

namespace Python

open Text

/-! ## One step -/

/-- One step of reading a line: what it adds to the line, the bracket depth behind it, what is left
to be read, and whether the line ends here. -/
structure Move where
  front : Text
  depth : Nat
  rest : Text
  isBreak : Bool

/-- The step that a character at the front begins. -/
def move (depth : Nat) (c : Char) (rest : Text) : Move :=
  if c = '"' ∨ c = '\'' then
    if [c, c].isPrefixOf rest then ⟨[c, c], depth, afterTriple c c (rest.drop 2), false⟩
    else ⟨c :: (Literal.escapedBody c rest).1, depth, (Literal.escapedBody c rest).2, false⟩
  else if c = '#' then ⟨[], depth, rest.dropWhile (· != '\n'), false⟩
  else if c = '\\' ∧ rest.head? = some '\n' then ⟨[' '], depth, rest.drop 1, false⟩
  else if c = '\n' then
    if 0 < depth then ⟨[' '], depth, rest, false⟩ else ⟨[], 0, rest, true⟩
  else ⟨[c], lineBrackets.depthAfter depth false c, rest, false⟩

/-- The step over a literal or a string in triple quotes. -/
theorem move_of_quote {c : Char} (hc : c = '"' ∨ c = '\'') (depth : Nat) (rest : Text) :
    move depth c rest =
      if [c, c].isPrefixOf rest then ⟨[c, c], depth, afterTriple c c (rest.drop 2), false⟩
      else ⟨c :: (Literal.escapedBody c rest).1, depth, (Literal.escapedBody c rest).2, false⟩ :=
  if_pos hc

/-- The step over a comment goes up to the line break. -/
theorem move_of_comment (depth : Nat) (rest : Text) :
    move depth '#' rest = ⟨[], depth, rest.dropWhile (· != '\n'), false⟩ := rfl

/-- The step over any other character takes one character, or a backslash with the line break
behind it. -/
theorem move_of_other {c : Char} (hquote : ¬(c = '"' ∨ c = '\'')) (hcomment : c ≠ '#') (depth : Nat)
    (rest : Text) :
    move depth c rest =
      if c = '\\' ∧ rest.head? = some '\n' then ⟨[' '], depth, rest.drop 1, false⟩
      else if c = '\n' then
        if 0 < depth then ⟨[' '], depth, rest, false⟩ else ⟨[], 0, rest, true⟩
      else ⟨[c], lineBrackets.depthAfter depth false c, rest, false⟩ :=
  (if_neg hquote).trans (if_neg hcomment)

/-- Behind a quote stands a literal. -/
theorem cut?_quote {c : Char} (hc : c = '"' ∨ c = '\'') (rest : Text) :
    Literal.cut? false (c :: rest) =
      some (⟨[], c, (Literal.escapedBody c rest).1⟩, (Literal.escapedBody c rest).2) := by
  have hquote : Literal.isQuote c = true := by rcases hc with rfl | rfl <;> decide
  have hmark : Literal.isMark c = false := by rcases hc with rfl | rfl <;> decide
  rw [Literal.cut?, Bool.false_or, if_pos hquote, read?_of_unmarked hmark, if_pos hquote]

/-- Reading a line is made of steps. -/
theorem scan_cons_eq (depth : Nat) (c : Char) (rest : Text) :
    scan depth (c :: rest) =
      if (move depth c rest).isBreak then ([], rawLines (move depth c rest).rest)
      else prepend (move depth c rest).front
        (scan (move depth c rest).depth (move depth c rest).rest) := by
  rw [scan, move]
  by_cases hquote : c = '"' ∨ c = '\''
  · rw [if_pos hquote, if_pos hquote]
    by_cases htriple : [c, c].isPrefixOf rest = true
    · rw [if_pos htriple, if_pos htriple]
      rfl
    · rw [if_neg htriple, if_neg htriple]
      -- a quote opens a literal in any case, so that the other branch is not taken
      split
      · rename_i value behind hcut
        rw [cut?_quote hquote] at hcut
        cases hcut
        rfl
      · rename_i hcut
        rw [cut?_quote hquote] at hcut
        cases hcut
  · rw [if_neg hquote, if_neg hquote]
    split
    · rfl
    · split
      · rfl
      · split
        · split <;> rfl
        · rfl

/-- Moving on leaves no more to read. -/
theorem length_rest_move_le (depth : Nat) (c : Char) (rest : Text) :
    (move depth c rest).rest.length ≤ rest.length := by
  rw [move]
  split
  · split
    · exact Nat.le_trans (length_afterTriple_le c c _) (List.drop_sublist 2 rest).length_le
    · have := congrArg List.length (Literal.escapedBody_append c rest)
      rw [List.length_append] at this
      show (Literal.escapedBody c rest).2.length ≤ _
      omega
  · split
    · exact (List.dropWhile_sublist _).length_le
    · split
      · exact (List.drop_sublist 1 rest).length_le
      · split
        · split <;> exact Nat.le_refl _
        · exact Nat.le_refl _

/-! ## What comes later -/

/-- Behind a string in triple quotes, something is left only if its closing quotes are there. -/
theorem length_lt_of_afterTriple_ne_nil {quote previous : Char} {text : Text}
    (h : afterTriple quote previous text ≠ []) : 3 < text.length := by
  fun_induction afterTriple quote previous text with
  | case1 => exact absurd rfl h
  | case2 previous c rest hclose =>
      have := List.length_pos_iff.2 h
      rw [List.length_drop] at this
      rw [List.length_cons]
      omega
  | case3 previous c rest hopen ih => exact Nat.lt_succ_of_lt (ih h)

/-- Two quotes are seen whatever follows, if the text is long enough. -/
theorem isPrefixOf_pair_append (quote : Char) {text : Text} (h : 2 ≤ text.length) (more : Text) :
    [quote, quote].isPrefixOf (text ++ more) = [quote, quote].isPrefixOf text := by
  obtain _ | ⟨a, _ | ⟨b, rest⟩⟩ := text
  · simp at h
  · simp at h
  · simp [List.isPrefixOf]

/-- A literal that something follows does not turn into a string in triple quotes. -/
theorem isPrefixOf_pair_append_of_escapedBody {quote : Char} {text : Text}
    (h : (Literal.escapedBody quote text).2 ≠ []) (more : Text) :
    [quote, quote].isPrefixOf (text ++ more) = [quote, quote].isPrefixOf text := by
  obtain _ | ⟨a, _ | ⟨b, rest⟩⟩ := text
  · exact absurd rfl h
  -- a quote would have closed the literal and left nothing
  · have ha : ¬a = quote := by
      rintro rfl
      exact h (by simp [Literal.escapedBody])
    simp [List.isPrefixOf, Ne.symm ha]
  · exact isPrefixOf_pair_append quote (by simp) more

/-- A triple-quoted literal that is closed ends where it ended, whatever follows. -/
theorem afterTriple_append {quote previous : Char} {text : Text}
    (h : afterTriple quote previous text ≠ []) (more : Text) :
    afterTriple quote previous (text ++ more) = afterTriple quote previous text ++ more := by
  fun_induction afterTriple quote previous text with
  | case1 => exact absurd rfl h
  | case2 previous c rest hclose =>
      have hlength : 2 ≤ rest.length := by
        have := List.length_pos_iff.2 h
        rw [List.length_drop] at this
        omega
      rw [List.cons_append, afterTriple, isPrefixOf_pair_append quote hlength, if_pos hclose,
        List.drop_append_of_le_length hlength]
  | case3 previous c rest hopen ih =>
      -- closing quotes that `more` could complete would leave nothing behind them
      have hlength := length_lt_of_afterTriple_ne_nil h
      rw [List.cons_append, afterTriple, isPrefixOf_pair_append quote (by omega), if_neg hopen,
        ih h]

theorem dropWhile_append_of_ne_nil {p : Char → Bool} {text : Text} (h : text.dropWhile p ≠ [])
    (more : Text) : (text ++ more).dropWhile p = text.dropWhile p ++ more := by
  rw [List.dropWhile_append, if_neg (by simpa using h)]

/-- A literal that leaves something to read is not changed by what follows. -/
theorem move_append_of_quote {depth : Nat} {c : Char} (hc : c = '"' ∨ c = '\'') {rest : Text}
    (h : (move depth c rest).rest ≠ []) (more : Text) :
    move depth c (rest ++ more) =
      { move depth c rest with rest := (move depth c rest).rest ++ more } := by
  rw [move_of_quote hc] at h
  rw [move_of_quote hc, move_of_quote hc]
  by_cases htriple : [c, c].isPrefixOf rest = true
  · rw [if_pos htriple] at h ⊢
    have hlength : 2 ≤ rest.length := by
      have := length_lt_of_afterTriple_ne_nil h
      rw [List.length_drop] at this
      omega
    rw [isPrefixOf_pair_append c hlength, if_pos htriple, List.drop_append_of_le_length hlength,
      afterTriple_append h]
  · rw [if_neg htriple] at h ⊢
    rw [isPrefixOf_pair_append_of_escapedBody h, if_neg htriple,
      Literal.escapedBody_append_right h]

/-- A step that leaves something, or that ends a line, is the same whatever comes later. -/
theorem move_append {depth : Nat} {c : Char} {rest : Text}
    (h : (move depth c rest).rest ≠ [] ∨ (move depth c rest).isBreak = true) (more : Text) :
    move depth c (rest ++ more) =
      { move depth c rest with rest := (move depth c rest).rest ++ more } := by
  by_cases hquote : c = '"' ∨ c = '\''
  · have hbreak : (move depth c rest).isBreak = false := by
      rw [move_of_quote hquote]
      split <;> rfl
    exact move_append_of_quote hquote (h.resolve_right (by simp [hbreak])) more
  · by_cases hcomment : c = '#'
    · subst hcomment
      rw [move_of_comment] at h
      have hbehind : rest.dropWhile (· != '\n') ≠ [] := by simpa using h
      rw [move_of_comment, move_of_comment, dropWhile_append_of_ne_nil hbehind]
    · rw [move_of_other hquote hcomment] at h
      rw [move_of_other hquote hcomment, move_of_other hquote hcomment]
      -- a backslash looks at the next character, and with none nothing is left behind it
      cases rest with
      | nil =>
          have hc : c = '\n' := by
            by_contra hc
            simp [hc] at h
          subst hc
          by_cases hdepth : 0 < depth <;> simp [hdepth]
      | cons d rest =>
          rw [List.cons_append, List.head?_cons, List.head?_cons]
          split
          · rfl
          · split
            · split <;> rfl
            · rfl

/-! ## Ending at a line break -/

/-- Whether reading on at a bracket depth ends right behind a line break that counts. -/
def endsLine (depth : Nat) (text : Text) : Bool :=
  match text with
  | [] => false
  | c :: rest =>
    if (move depth c rest).isBreak then
      (move depth c rest).rest.isEmpty ||
        endsLine 0 ((move depth c rest).rest.dropWhile isIndent)
    else endsLine (move depth c rest).depth (move depth c rest).rest
termination_by text.length
decreasing_by
  · have hrest := length_rest_move_le depth c rest
    have hindent := (List.dropWhile_sublist isIndent (l := (move depth c rest).rest)).length_le
    rw [List.length_cons]
    omega
  · have hrest := length_rest_move_le depth c rest
    rw [List.length_cons]
    omega

/-- Whether reading a text ends right behind a line break that counts, or before it has begun. -/
def endsAtBreak (text : Text) : Bool := text.isEmpty || endsLine 0 (text.dropWhile isIndent)

theorem ne_nil_of_endsLine {depth : Nat} {text : Text} (h : endsLine depth text = true) :
    text ≠ [] := by
  rintro rfl
  rw [endsLine] at h
  exact Bool.noConfusion h

theorem rawLines_eq (text : Text) :
    rawLines text =
      ((splitIndent text).1, (scan 0 (text.dropWhile isIndent)).1) ::
        (scan 0 (text.dropWhile isIndent)).2 := rfl

/-- An empty text has one empty line. -/
theorem rawLines_nil : rawLines [] = [(0, [])] := by
  rw [rawLines_eq, List.dropWhile_nil, scan]
  rfl

/-- What follows a line does not change its indent. -/
theorem splitIndent_append {text : Text} (h : text.dropWhile isIndent ≠ []) (more : Text) :
    (splitIndent (text ++ more)).1 = (splitIndent text).1 := by
  have hlength : (text.takeWhile isIndent).length ≠ text.length := by
    have hsum := congrArg List.length (text.takeWhile_append_dropWhile (p := isIndent))
    have hpos := List.length_pos_iff.2 h
    rw [List.length_append] at hsum
    omega
  rw [splitIndent, splitIndent, List.takeWhile_append, if_neg hlength]

/-- What is read on an indented line, from what is read behind its indentation. -/
theorem rawLines_append_of_scan {text more : Text} {first : Text} {lines : List (Nat × Text)}
    (hbody : text.dropWhile isIndent ≠ [])
    (halone : scan 0 (text.dropWhile isIndent) = (first, lines ++ [(0, [])]))
    (hmore : scan 0 (text.dropWhile isIndent ++ more) = (first, lines ++ rawLines more)) :
    rawLines text = ((splitIndent text).1, first) :: lines ++ [(0, [])] ∧
      rawLines (text ++ more) = ((splitIndent text).1, first) :: lines ++ rawLines more := by
  constructor
  · rw [rawLines_eq, halone]
    rfl
  · rw [rawLines_eq, dropWhile_append_of_ne_nil hbody, hmore, splitIndent_append hbody]
    rfl

/-- The line that is being read goes on to the same line break whatever comes later, and behind the
last line break a later text is read as if it stood alone. -/
theorem scan_append {depth : Nat} {text : Text} (h : endsLine depth text = true) (more : Text) :
    ∃ first lines, scan depth text = (first, lines ++ [(0, [])]) ∧
      scan depth (text ++ more) = (first, lines ++ rawLines more) := by
  fun_induction endsLine depth text with
  | case1 => exact Bool.noConfusion h
  | case2 depth c rest hbreak ih =>
      rw [List.cons_append, scan_cons_eq, scan_cons_eq, move_append (.inr hbreak), if_pos hbreak,
        if_pos hbreak]
      -- the line ends here, and either the text does or a next line begins
      rcases Bool.or_eq_true_iff.1 h with hempty | hends
      · rw [List.isEmpty_iff.1 hempty, List.nil_append, rawLines_nil]
        exact ⟨[], [], rfl, rfl⟩
      · obtain ⟨first, lines, halone, hmore⟩ := ih hends
        obtain ⟨hraw, hraw'⟩ :=
          rawLines_append_of_scan (ne_nil_of_endsLine hends) halone hmore
        exact ⟨[], _, congrArg _ hraw, congrArg _ hraw'⟩
  | case3 depth c rest hbreak ih =>
      obtain ⟨first, lines, halone, hmore⟩ := ih h
      rw [List.cons_append, scan_cons_eq, scan_cons_eq, move_append (.inl (ne_nil_of_endsLine h)),
        if_neg hbreak, if_neg hbreak, halone, hmore]
      exact ⟨_, lines, rfl, rfl⟩

/-- Behind a line break it is as if the text began there. -/
theorem rawLines_append {text : Text} (h : endsAtBreak text = true) (more : Text) :
    ∃ lines, rawLines text = lines ++ [(0, [])] ∧
      rawLines (text ++ more) = lines ++ rawLines more := by
  rcases Bool.or_eq_true_iff.1 h with hempty | hends
  · rw [List.isEmpty_iff.1 hempty, List.nil_append]
    exact ⟨[], rawLines_nil, rfl⟩
  · obtain ⟨first, lines, halone, hmore⟩ := scan_append hends more
    exact ⟨_, rawLines_append_of_scan (ne_nil_of_endsLine hends) halone hmore⟩

/-- The logical lines of a text that ends at a line break and of a text behind it. -/
theorem logicalLines_append {text : Text} (h : endsAtBreak text = true) (more : Text) :
    logicalLines (text ++ more) = logicalLines text ++ logicalLines more := by
  obtain ⟨lines, halone, hmore⟩ := rawLines_append h more
  rw [logicalLines, logicalLines, logicalLines, halone, hmore, List.filterMap_append,
    List.filterMap_append]
  simp [Text.strip, Text.stripStart, Text.stripEnd]

end Python

end ClassDiagram
