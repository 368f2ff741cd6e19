import ClassDiagram.Proofs.Scan.LogicalLine

/-!
# Where a string in triple quotes ends

A string in triple quotes ends at the first three quotes of which none is escaped. Reading logical
lines decides this by one character: closing quotes count unless a backslash stands right before them.
That is where the string ends, unless its last character is an escaped backslash. Then the closing
quotes are taken for escaped, and as the string goes on behind them, they do what opening quotes
would do.

* `StringUnit`: what the inside of such a string is made of.
* `afterTriple_units`: the inside is passed over, up to its last character.
* `logicalLines_congr`: what ordinary text comes before does not matter to what follows it.
* `logicalLines_tripleQuoted`: the lines of a source with such a string.
-/

namespace ClassDiagram

namespace Python

/-- A unit of the inside of a string in double quotes: a backslash with the character behind it, or
any character but a backslash and a quote. -/
inductive StringUnit where
  | escaped (c : Char)
  | plain (c : Char) (ordinary : c ≠ '\\' ∧ c ≠ '"' := by decide)

namespace StringUnit

/-- The last character of a unit. -/
def last : StringUnit → Char
  | escaped c => c
  | plain c _ => c

/-- A unit as it is written. -/
def text : StringUnit → Text
  | escaped c => ['\\', c]
  | plain c _ => [c]

theorem getLast?_text (unit : StringUnit) : unit.text.getLast? = some unit.last := by
  cases unit <;> rfl

/-- Units as they are written, one behind the other. -/
def texts (units : List StringUnit) : Text := units.flatMap text

theorem texts_cons (unit : StringUnit) (units : List StringUnit) :
    texts (unit :: units) = unit.text ++ texts units := rfl

end StringUnit

open StringUnit Text

/-- Three double quotes. -/
def tripleQuote : Text := ['"', '"', '"']

/-! ## The inside -/

section Inside

variable {previous c : Char}

theorem afterTriple_of_ne (hc : c ≠ '"') (rest : Text) :
    afterTriple '"' previous (c :: rest) = afterTriple '"' c rest := by
  rw [afterTriple, if_neg (by simp [hc])]

theorem afterTriple_of_escaped (rest : Text) :
    afterTriple '"' '\\' (c :: rest) = afterTriple '"' c rest := by
  rw [afterTriple, if_neg (by simp)]

/-- A unit does not close a string, whatever stands before it. -/
theorem afterTriple_unit (unit : StringUnit) (rest : Text) :
    afterTriple '"' previous (unit.text ++ rest) = afterTriple '"' unit.last rest := by
  cases unit with
  | escaped c => exact (afterTriple_of_ne (by decide) _).trans (afterTriple_of_escaped rest)
  | plain c ordinary => exact afterTriple_of_ne ordinary.2 rest

/-- The inside of a string is passed over, up to its last character. -/
theorem afterTriple_units (units : List StringUnit) (rest : Text) :
    afterTriple '"' previous (texts units ++ rest) =
      afterTriple '"' ((texts units).getLast?.getD previous) rest := by
  induction units generalizing previous with
  | nil => rfl
  | cons unit others ih =>
      have hlast : (texts (unit :: others)).getLast?.getD previous =
          (texts others).getLast?.getD unit.last := by
        rw [texts_cons, List.getLast?_append, getLast?_text]
        cases (texts others).getLast? <;> rfl
      rw [hlast, ← ih, texts_cons, List.append_assoc, afterTriple_unit]

/-- Three quotes close a string, unless a backslash stands before them. -/
theorem afterTriple_tripleQuote (hprevious : previous ≠ '\\') (rest : Text) :
    afterTriple '"' previous (tripleQuote ++ rest) = rest := by
  rw [tripleQuote, List.cons_append, afterTriple, if_pos ⟨rfl, by simp [List.isPrefixOf], hprevious⟩]
  rfl

/-- Behind a backslash they do not, and what follows a line break behind them is still inside. -/
theorem afterTriple_tripleQuote_escaped (rest : Text) :
    afterTriple '"' '\\' (tripleQuote ++ '\n' :: rest) = afterTriple '"' '"' ('\n' :: rest) := by
  rw [tripleQuote, List.cons_append, afterTriple_of_escaped, List.cons_append, afterTriple,
    if_neg (by simp [List.isPrefixOf]), List.cons_append, afterTriple,
    if_neg (by simp [List.isPrefixOf]), List.nil_append]

/-- Without three quotes in it, all that is left is inside. -/
theorem afterTriple_of_not_includes {text : Text} (h : includes text tripleQuote = false) :
    afterTriple '"' previous text = [] := by
  induction text generalizing previous with
  | nil => rfl
  | cons c rest ih =>
      rw [includes, indexOf?] at h
      split at h
      · cases h
      · rename_i hopen
        rw [afterTriple, if_neg ?_]
        · exact ih (by simpa [includes] using h)
        · rintro ⟨rfl, hpair, -⟩
          exact hopen (by simpa [tripleQuote, List.isPrefixOf] using hpair)

end Inside

/-! ## Text before -/

/-- Whether a character begins no literal, comment or escape. -/
def IsOrdinary (c : Char) : Prop := c ≠ '"' ∧ c ≠ '\'' ∧ c ≠ '#' ∧ c ≠ '\\'

instance (c : Char) : Decidable (IsOrdinary c) :=
  inferInstanceAs (Decidable (c ≠ '"' ∧ c ≠ '\'' ∧ c ≠ '#' ∧ c ≠ '\\'))

/-- The step over an ordinary character does not look ahead. -/
theorem move_of_ordinary {c : Char} (h : IsOrdinary c) (depth : Nat) (rest : Text) :
    move depth c rest =
      if c = '\n' then
        if 0 < depth then ⟨[' '], depth, rest, false⟩ else ⟨[], 0, rest, true⟩
      else ⟨[c], lineBrackets.depthAfter depth false c, rest, false⟩ := by
  obtain ⟨hdouble, hsingle, hcomment, hescape⟩ := h
  rw [move_of_other (by simp [hdouble, hsingle]) hcomment, if_neg (by simp [hescape])]

section Congruence

variable {left right : Text}

/-- Texts that begin with a quote are alike behind an indentation if they are alike. -/
theorem rawLines_congr {text : Text}
    (h : scan 0 (text.dropWhile isIndent ++ '"' :: left) =
      scan 0 (text.dropWhile isIndent ++ '"' :: right)) :
    rawLines (text ++ '"' :: left) = rawLines (text ++ '"' :: right) := by
  have hquote : isIndent '"' = false := by decide
  have hdrop : ∀ rest : Text,
      (text ++ '"' :: rest).dropWhile isIndent = text.dropWhile isIndent ++ '"' :: rest := by
    intro rest
    rw [List.dropWhile_append, List.dropWhile_cons_of_neg (by simp [hquote])]
    split
    · rename_i hempty
      rw [List.isEmpty_iff.mp hempty, List.nil_append]
    · rfl
  have htake : ∀ rest : Text,
      (text ++ '"' :: rest).takeWhile isIndent = text.takeWhile isIndent := by
    intro rest
    rw [List.takeWhile_append, List.takeWhile_cons_of_neg (by simp [hquote]), List.append_nil]
    split
    · rename_i hall
      exact ((List.takeWhile_prefix _).eq_of_length hall).symm
    · rfl
  rw [rawLines_eq, rawLines_eq, splitIndent, splitIndent, hdrop, hdrop, htake, htake, h]

/-- What is read behind ordinary text does not depend on that text but for the depth to which it
leads, so that texts which are alike at every depth are alike behind it. -/
theorem scan_congr (h : ∀ depth, scan depth ('"' :: left) = scan depth ('"' :: right))
    (front : Text) (hfront : ∀ c ∈ front, IsOrdinary c) (depth : Nat) :
    scan depth (front ++ '"' :: left) = scan depth (front ++ '"' :: right) := by
  cases front with
  | nil => exact h depth
  | cons c rest =>
      obtain ⟨hc, hrest⟩ := List.forall_mem_cons.mp hfront
      rw [List.cons_append, List.cons_append, scan_cons_eq, scan_cons_eq, move_of_ordinary hc,
        move_of_ordinary hc]
      by_cases hbreak : c = '\n'
      · rw [if_pos hbreak, if_pos hbreak]
        by_cases hdepth : 0 < depth
        · rw [if_pos hdepth, if_pos hdepth, if_neg (by simp), if_neg (by simp),
            scan_congr h rest hrest]
        · have hsuffix := List.dropWhile_suffix isIndent (l := rest)
          have hlength : (rest.dropWhile isIndent).length ≤ rest.length := hsuffix.length_le
          rw [if_neg hdepth, if_neg hdepth, if_pos rfl, if_pos rfl,
            rawLines_congr (scan_congr h _ (fun d hd => hrest d (hsuffix.subset hd)) 0)]
      · rw [if_neg hbreak, if_neg hbreak, if_neg (by simp), if_neg (by simp),
          scan_congr h rest hrest]
termination_by front.length
decreasing_by
  all_goals
    subst_vars
    rw [List.length_cons]
    omega

/-- Behind ordinary text, texts that are alike at every depth give the same logical lines. -/
theorem logicalLines_congr (h : ∀ depth, scan depth ('"' :: left) = scan depth ('"' :: right))
    {front : Text} (hfront : ∀ c ∈ front, IsOrdinary c) :
    logicalLines (front ++ '"' :: left) = logicalLines (front ++ '"' :: right) := by
  have hsuffix := List.dropWhile_suffix isIndent (l := front)
  rw [logicalLines, logicalLines,
    rawLines_congr (scan_congr h _ (fun c hc => hfront c (hsuffix.subset hc)) 0)]

end Congruence

/-! ## Sources -/

/-- A string in triple quotes is read as two quotes. -/
theorem scan_tripleQuote (depth : Nat) (inside : Text) :
    scan depth (tripleQuote ++ inside) =
      prepend ['"', '"'] (scan depth (afterTriple '"' '"' inside)) := by
  have hmove : move depth '"' ('"' :: '"' :: inside) =
      ⟨['"', '"'], depth, afterTriple '"' '"' inside, false⟩ := by
    rw [move_of_quote (.inl rfl), if_pos (by simp [List.isPrefixOf])]
    rfl
  show scan depth ('"' :: '"' :: '"' :: inside) = _
  rw [scan_cons_eq, hmove, if_neg (by simp)]

/-- So is an empty literal, which no third quote follows. -/
theorem scan_emptyLiteral (depth : Nat) {rest : Text} (h : rest.head? ≠ some '"') :
    scan depth ('"' :: '"' :: rest) = prepend ['"', '"'] (scan depth rest) := by
  have hpair : ['"', '"'].isPrefixOf ('"' :: rest) = false := by
    cases rest with
    | nil => rfl
    | cons c rest =>
        have hne : '"' ≠ c := fun heq => h (heq ▸ rfl)
        simp [List.isPrefixOf, hne]
  have hbody : Literal.escapedBody '"' ('"' :: rest) = (['"'], rest) := by
    simp [Literal.escapedBody]
  have hmove : move depth '"' ('"' :: rest) = ⟨['"', '"'], depth, rest, false⟩ := by
    rw [move_of_quote (.inl rfl), if_neg (by simp [hpair]), hbody]
  rw [scan_cons_eq, hmove, if_neg (by simp)]

/-- A string in triple quotes, at the end of a line. -/
def tripleQuoted (units : List StringUnit) (back : Text) : Text :=
  tripleQuote ++ (texts units ++ (tripleQuote ++ '\n' :: back))

/-- Where a string in triple quotes is left. -/
theorem scan_tripleQuoted (depth : Nat) (units : List StringUnit) (back : Text) :
    scan depth (tripleQuoted units back) =
      if (texts units).getLast? = some '\\' then scan depth (tripleQuote ++ '\n' :: back)
      else scan depth ('"' :: '"' :: '\n' :: back) := by
  rw [tripleQuoted, scan_tripleQuote, scan_tripleQuote, scan_emptyLiteral depth (by simp),
    afterTriple_units]
  split
  · rename_i hlast
    rw [hlast, Option.getD_some, afterTriple_tripleQuote_escaped]
  · rename_i hlast
    have hprevious : (texts units).getLast?.getD '"' ≠ '\\' := by
      cases hcase : (texts units).getLast? with
      | none => decide
      | some c => exact fun heq => hlast (by rw [hcase, ← heq]; rfl)
    rw [afterTriple_tripleQuote hprevious]

/-- The lines of a source with a string in triple quotes, at the end of a line and behind ordinary
text. If the string does not end in a backslash, it is read as two quotes. If it does, that backslash
is an escaped one and the string ends as well, but it is read on as if it began where it ends; all
that follows is lost if no triple quotes are in it. -/
theorem logicalLines_tripleQuoted (front back : Text) (units : List StringUnit)
    (hfront : ∀ c ∈ front, IsOrdinary c) :
    ((texts units).getLast? ≠ some '\\' →
      logicalLines (front ++ tripleQuoted units back) =
        logicalLines (front ++ '"' :: '"' :: '\n' :: back)) ∧
    ((texts units).getLast? = some '\\' →
      logicalLines (front ++ tripleQuoted units back) =
        logicalLines (front ++ (tripleQuote ++ '\n' :: back))) ∧
    ((texts units).getLast? = some '\\' → includes back tripleQuote = false →
      logicalLines (front ++ tripleQuoted units back) = logicalLines (front ++ ['"', '"'])) := by
  refine ⟨fun hlast => ?_, fun hlast => ?_, fun hlast hback => ?_⟩
  · refine logicalLines_congr (fun depth => ?_) hfront
    exact (scan_tripleQuoted depth units back).trans (if_neg hlast)
  · refine logicalLines_congr (fun depth => ?_) hfront
    exact (scan_tripleQuoted depth units back).trans (if_pos hlast)
  · have hlost : afterTriple '"' '"' ('\n' :: back) = [] :=
      (afterTriple_of_ne (by decide) _).trans (afterTriple_of_not_includes hback)
    refine logicalLines_congr (fun depth => ?_) hfront
    refine (scan_tripleQuoted depth units back).trans ((if_pos hlast).trans ?_)
    rw [scan_tripleQuote, hlost]
    exact (scan_emptyLiteral depth (by simp)).symm

/-- A line in a class, with a bracket that is open. -/
def loftFront : Text := "class Loft:\n\tnote = (".toList

/-- A string with quotes, a backslash and a line break inside. -/
def loftNote : List StringUnit :=
  [.plain 'a', .escaped '"', .escaped '\\', .plain '\n', .plain '(', .escaped '"']

/-- What stands behind that string. -/
def loftBack : Text := ")\n\tbeam: Beam\n".toList

theorem logicalLines_loft :
    (∀ c ∈ loftFront, IsOrdinary c) ∧ texts loftNote = "a\\\"\\\\\n(\\\"".toList ∧
      logicalLines (loftFront ++ tripleQuoted loftNote loftBack) =
        logicalLines (loftFront ++ '"' :: '"' :: '\n' :: loftBack) ∧
      logicalLines (loftFront ++ '"' :: '"' :: '\n' :: loftBack) =
        [⟨0, "class Loft:".toList⟩, ⟨4, "note = (\"\" )".toList⟩, ⟨4, "beam: Beam".toList⟩] := by
  have hfront : ∀ c ∈ loftFront, IsOrdinary c := forall_chars (by decide)
  exact ⟨hfront, by decide, (logicalLines_tripleQuoted loftFront loftBack loftNote hfront).1 (by decide),
    by decide +kernel⟩

/-- A string that ends in an escaped backslash takes the next line into itself. -/
theorem attic_line_lost :
    let string := "note = ".toList ++ tripleQuoted [.plain 'a', .escaped '\\'] "beam: Beam\n".toList
    let empty := "note = ".toList ++ '"' :: '"' :: '\n' :: "beam: Beam\n".toList
    string = "note = \"\"\"a\\\\\"\"\"\nbeam: Beam\n".toList ∧
      logicalLines string = [⟨0, "note = \"\"".toList⟩] ∧
      logicalLines empty = [⟨0, "note = \"\"".toList⟩, ⟨0, "beam: Beam".toList⟩] ∧
      logicalLines string ≠ logicalLines empty := by
  decide +kernel

end Python

end ClassDiagram
