import ClassDiagram.Proofs.Scan.Cutter
import ClassDiagram.Proofs.Scan.Nested

/-!
# Parts and units

A text is cut into parts at separators outside of all brackets, and a block into units at line
breaks outside of braces and parentheses. Both are done by cutters that restart behind every cut: a
bracket that was never opened closes nothing, and no equals sign before a part or a unit makes a
difference to it. So nothing is lost but the separators, the blanks around the parts and an empty
last unit, and what is cut once is not cut again.

* `topCutter`, `lineCutter`: the two cutters.
* `splitTop_parts`: the parts of a text, and that they are final.
* `topLevelFrom?_eq_none`, `topLevelFrom?_eq_some`: a search outside of all brackets finds the first
  cut.
* `splitTop_search`: splitting is searching again and again.
* `units_joined`: the units of a block, and that they are final.
-/

namespace ClassDiagram

namespace Text

/-! ## The two cutters -/

/-- Cuts at the separators outside of all brackets. The state is the depth, and whether an equals
sign stands before the next character. -/
def topCutter (separates : Char → Bool) (brackets : Brackets) : Cutter (Nat × Bool) where
  start := (0, false)
  pass := fun state => (state.1, false)
  step := fun state c => (brackets.depthAfter state.1 state.2 c, c == '=')
  cuts := fun state c => separates c && state.1 == 0

/-- Cuts at the line breaks outside of braces and parentheses. The state is how many of them are
open. -/
def lineCutter : Cutter (Nat × Nat) where
  start := (0, 0)
  pass := id
  step := fun state c =>
    (if c = '\x7b' then state.1 + 1 else if c = '\x7d' then state.1 - 1 else state.1,
      if c = '(' then state.2 + 1 else if c = ')' then state.2 - 1 else state.2)
  cuts := fun state c => c == '\n' && state == (0, 0)

section TopCutter

variable {separates : Char → Bool} {brackets : Brackets}

/-- Splitting outside of brackets is the work of a cutter. -/
theorem segments_topCutter (depth : Nat) (afterEquals : Bool) (read : List Piece) :
    (topCutter separates brackets).segments (depth, afterEquals) read =
      topSegments separates brackets depth afterEquals read := by
  induction read generalizing depth afterEquals with
  | nil => rfl
  | cons piece rest ih =>
      cases piece with
      | literal value =>
          rw [Cutter.segments, topSegments, ← ih]
          rfl
      | char c =>
          rw [Cutter.segments, topSegments, ← ih]
          simp [topCutter]

/-- Outside of all brackets a closing bracket changes nothing, whatever stands before it. -/
theorem depthAfter_zero (brackets : Brackets) (afterEquals : Bool) (c : Char) :
    brackets.depthAfter 0 afterEquals c = brackets.depthAfter 0 false c := by
  simp [Brackets.depthAfter]

/-- Outside of brackets it makes no difference whether an equals sign was the last. -/
theorem alike_topCutter (afterEquals : Bool) :
    (topCutter separates brackets).Alike (0, afterEquals) (0, false) := by
  have hstep : ∀ c, (topCutter separates brackets).step (0, afterEquals) c =
      (topCutter separates brackets).step (0, false) c :=
    fun c => congrArg (·, c == '=') (depthAfter_zero brackets afterEquals c)
  intro front c
  cases front with
  | nil => rw [Cutter.cutsBehind, Cutter.run, hstep, Cutter.cutsBehind, Cutter.run]
  | cons piece front =>
      cases piece with
      | literal value => rfl
      | char d => rw [Cutter.cutsBehind, Cutter.run, hstep, Cutter.cutsBehind, Cutter.run]

/-- Behind a cut it is as if the text began there. -/
theorem restarts_topCutter (separates : Char → Bool) (brackets : Brackets) :
    (topCutter separates brackets).Restarts := by
  rintro ⟨depth, afterEquals⟩ c hcut
  have hzero : brackets.depthAfter depth afterEquals c = 0 :=
    eq_of_beq (Bool.and_eq_true_iff.mp hcut).2
  show (topCutter separates brackets).Alike (brackets.depthAfter depth afterEquals c, c == '=')
    (0, false)
  rw [hzero]
  exact alike_topCutter _

end TopCutter

/-- Splitting a body into units is the work of a cutter. -/
theorem segments_lineCutter (braces parens : Nat) (read : List Piece) :
    lineCutter.segments (braces, parens) read = unitSegments braces parens read := by
  induction read generalizing braces parens with
  | nil => rfl
  | cons piece rest ih =>
      cases piece with
      | literal value =>
          rw [Cutter.segments, unitSegments, ← ih]
          rfl
      | char c =>
          rw [Cutter.segments, unitSegments, ← ih]
          simp [lineCutter]

/-- Behind a cut it is as if the body began there. -/
theorem restarts_lineCutter : lineCutter.Restarts := by
  intro state c hcut front d
  have hstart : lineCutter.step state c = (0, 0) := by
    simpa using (Bool.and_eq_true_iff.mp hcut).2
  rw [hstart]
  rfl

/-! ## Parts -/

/-- The segments without the blanks around them, less those that are empty then. -/
def filledParts (segments : List Text) : List Text :=
  (segments.map strip).filter fun part => !part.isEmpty

/-- Whether a separator stands at a place of a text outside of all literals and brackets. -/
def SeparatesAt (separates : Char → Bool) (angles : Bool) (text : Text) (place : Nat) : Prop :=
  (topCutter separates ⟨true, angles⟩).CutsAt (pieces false text) place

section Parts

variable {separates : Char → Bool} {angles : Bool} {text part : Text}

/-- The parts of a text are the trimmed segments that are not empty. -/
theorem splitTop_eq (text : Text) (separates : Char → Bool) (angles : Bool) :
    splitTop text separates angles =
      filledParts ((topCutter separates ⟨true, angles⟩).segments
        (topCutter separates ⟨true, angles⟩).start (pieces false text)) := by
  rw [splitTop, ← segments_topCutter]
  rfl

/-- Whether a segment is kept does not depend on the others. -/
theorem filledParts_cons (first : Text) (rest : List Text) :
    filledParts (first :: rest) = filledParts [first] ++ filledParts rest := by
  rw [filledParts, filledParts, filledParts, ← List.filter_append, ← List.map_append,
    List.singleton_append]

/-- What is trimmed ends in no blank. -/
theorem not_blank_of_getLast?_strip {c : Char} (h : (strip text).getLast? = some c) :
    isBlank c = false := by
  have hlast := List.head?_dropWhile_not isBlank (stripStart text).reverse
  rw [strip, stripEnd, List.getLast?_reverse] at h
  rw [h] at hlast
  simpa using hlast

/-- A blank is none of the characters that mean something to a cutter. -/
theorem inert_of_blank {c : Char} (h : isBlank c = true) :
    Literal.isQuote c = false ∧ Literal.isMark c = false ∧ isInert c = true := by
  have hfilled : ∀ d ∈ ['"', '\'', '\x60', '@', '$', '=', '(', '[', '\x7b', '<', ')', ']', '\x7d',
      '>'], isBlank d = false := forall_chars (by decide)
  have hnot := mt (hfilled c) (by simp [h])
  simp only [List.mem_cons, List.not_mem_nil, or_false, not_or] at hnot
  simp [Literal.isQuote, Literal.isMark, isInert, Brackets.all, Brackets.opens, Brackets.closes,
    hnot]

/-- Blanks at the front of a text do not change where it is cut. -/
theorem whole_of_blanks_append {lead : Text} (hlead : ∀ c ∈ lead, isBlank c = true)
    (h : (topCutter separates ⟨true, angles⟩).Whole (0, false) (pieces false (lead ++ text))) :
    (topCutter separates ⟨true, angles⟩).Whole (0, false) (pieces false text) := by
  induction lead with
  | nil => exact h
  | cons c lead ih =>
      obtain ⟨hc, hrest⟩ := List.forall_mem_cons.mp hlead
      obtain ⟨hquote, hmark, hinert⟩ := inert_of_blank hc
      have hstep : (topCutter separates ⟨true, angles⟩).step (0, false) c = (0, false) :=
        Prod.ext (depthAfter_of_inert hinert _ _ _) (not_equals_of_inert hinert)
      rw [List.cons_append, pieces_cons hquote hmark, Cutter.whole_char_cons, hstep] at h
      exact ih hrest h.2

/-- A part of a text is not cut again. -/
theorem whole_of_mem_splitTop (h : part ∈ splitTop text separates angles) :
    (topCutter separates ⟨true, angles⟩).Whole (0, false) (pieces false part) := by
  rw [splitTop_eq] at h
  obtain ⟨segment, hsegment, rfl⟩ := List.mem_map.mp (List.mem_filter.mp h).1
  have hwhole := Cutter.whole_of_mem_segments (restarts_topCutter separates ⟨true, angles⟩)
    (isRead_pieces false text) segment hsegment
  obtain ⟨lead, trail, hlead, -, hpadded⟩ := exists_eq_strip_padded segment
  rw [hpadded] at hwhole
  exact (whole_of_blanks_append hlead hwhole).of_longer

/-- A whole text is one part, unless it is blank. -/
theorem splitTop_of_whole
    (h : (topCutter separates ⟨true, angles⟩).Whole (0, false) (pieces false text)) :
    splitTop text separates angles = filledParts [text] := by
  have hsegments := Cutter.segments_of_whole h
  rw [chars_pieces] at hsegments
  rw [splitTop_eq]
  exact congrArg filledParts hsegments

/-- Splitting a text at separators loses nothing and leaves nothing to split. The text is its
segments with a separator before each but the first, and it is cut at all separators outside of
literals and brackets and nowhere else. The parts are the segments without the blanks around them,
less the empty ones, and each of them is the only part of itself. -/
theorem splitTop_parts (text : Text) (separates : Char → Bool) (angles : Bool) :
    (∃ cutting : Cutting, cutting.text = text ∧ (∀ cut ∈ cutting.rest, separates cut.1 = true) ∧
        (∀ place, place ∈ cutting.places ↔ SeparatesAt separates angles text place) ∧
        splitTop text separates angles = filledParts cutting.segments) ∧
      ∀ part ∈ splitTop text separates angles, part ≠ [] ∧
        (∀ c ∈ part.head?, isBlank c = false) ∧ (∀ c ∈ part.getLast?, isBlank c = false) ∧
        splitTop part separates angles = [part] := by
  constructor
  · obtain ⟨cutting, htext, hsegments, hplaces, hcuts⟩ :=
      Cutter.exists_cutting (restarts_topCutter separates ⟨true, angles⟩) (pieces false text)
    refine ⟨cutting, htext.trans (chars_pieces false text), fun cut hcut => ?_, hplaces, ?_⟩
    · obtain ⟨state, hstate⟩ := hcuts cut hcut
      exact (Bool.and_eq_true_iff.mp hstate).1
    · rw [splitTop_eq, hsegments]
  · intro part hpart
    have hone := splitTop_of_whole (whole_of_mem_splitTop hpart)
    obtain ⟨hmem, hfilled⟩ := List.mem_filter.mp hpart
    obtain ⟨segment, -, rfl⟩ := List.mem_map.mp hmem
    refine ⟨by simpa using hfilled, fun c hc => not_blank_of_head?_strip hc,
      fun c hc => not_blank_of_getLast?_strip hc, ?_⟩
    rw [hone, filledParts, List.map_singleton, strip_strip, List.filter_singleton, hfilled]
    rfl

/-- A part that ends in an open literal with blanks at its end, behind a bracket that closes
nothing. -/
def loosePair : Text := "Map<K, V> => r), \"p, q  ".toList

theorem splitTop_parts_loosePair :
    splitTop loosePair = ["Map<K, V> => r)".toList, "\"p, q".toList] ∧
      splitTop "\"p, q".toList = ["\"p, q".toList] := by
  have hsplit : splitTop loosePair = ["Map<K, V> => r)".toList, "\"p, q".toList] := by
    decide +kernel
  have hpart := (splitTop_parts loosePair (· == ',') true).2 "\"p, q".toList (by rw [hsplit]; simp)
  exact ⟨hsplit, hpart.2.2.2⟩

end Parts

/-! ## Searching -/

section Search

variable {c : Char} {depth : Nat} {previous : Option Char} {text : Text}

/-- A character other than the equals sign is found where it stands. -/
theorem standsAt_singleton (hc : c ≠ '=') (d : Char) (rest : Text) :
    standsAt [c] previous (d :: rest) = (d == c) := by
  have hne : [c] ≠ ['='] := fun heq => hc (List.cons.inj heq).1
  rw [standsAt, if_neg hne, List.isPrefixOf, List.isPrefixOf, Bool.and_true, Bool.beq_comm]

/-- An inert character is cut at exactly where it is found. -/
theorem cuts_topCutter_iff (hc : isInert c = true) (d : Char) (rest : Text) :
    (topCutter (· == c) .all).cuts
        ((topCutter (· == c) .all).step (depth, previous == some '=') d) d = true ↔
      depth = 0 ∧ standsAt [c] previous (d :: rest) = true := by
  have hequals : c ≠ '=' := by simpa using not_equals_of_inert hc
  rw [standsAt_singleton hequals]
  show ((d == c) && Brackets.all.depthAfter depth (previous == some '=') d == 0) = true ↔ _
  rw [Bool.and_eq_true, beq_iff_eq, beq_iff_eq, and_comm]
  refine and_congr_left fun heq => ?_
  rw [heq, depthAfter_of_inert hc]

/-- A search and a cutter go on alike. -/
theorem step_topCutter (separates : Char → Bool) (d : Char) :
    (topCutter separates .all).step (depth, previous == some '=') d =
      (Brackets.all.depthAfter depth (previous == some '=') d, some d == some '=') := by
  rw [Option.some_beq_some]
  rfl

/-- A search in vain meets no cut. -/
theorem topLevelFrom?_eq_none (hc : isInert c = true)
    (h : topLevelFrom? [c] depth previous text = none) :
    (topCutter (· == c) .all).Whole (depth, previous == some '=') (text.map Piece.char) := by
  induction text generalizing depth previous with
  | nil => exact Cutter.whole_nil
  | cons d rest ih =>
      rw [topLevelFrom?] at h
      split at h
      · exact absurd h (by simp)
      · rename_i hno
        have hrest := ih (Option.map_eq_none_iff.mp h)
        rw [← step_topCutter] at hrest
        rw [← cuts_topCutter_iff hc, Bool.not_eq_true] at hno
        exact Cutter.whole_char_cons.mpr ⟨hno, hrest⟩

/-- A search ends at the first cut. -/
theorem topLevelFrom?_eq_some (hc : isInert c = true) {place : Nat}
    (h : topLevelFrom? [c] depth previous text = some place) :
    ∃ front back, text = front ++ c :: back ∧ front.length = place ∧
      (topCutter (· == c) .all).Whole (depth, previous == some '=') (front.map Piece.char) ∧
      (topCutter (· == c) .all).cutsBehind (depth, previous == some '=') (front.map Piece.char) c =
        true := by
  induction text generalizing depth previous place with
  | nil => exact absurd h (by simp [topLevelFrom?])
  | cons d rest ih =>
      rw [topLevelFrom?] at h
      split at h
      · rename_i hfound
        -- a sign that is no bracket and no equals sign is found as the cutter cuts at it
        have hequals : c ≠ '=' := by simpa using not_equals_of_inert hc
        have hd : d = c := by
          rw [standsAt_singleton hequals] at hfound
          exact eq_of_beq hfound.2
        rw [← cuts_topCutter_iff hc, hd] at hfound
        cases h
        exact ⟨[], rest, by rw [hd, List.nil_append], rfl, Cutter.whole_nil, hfound⟩
      · rename_i hno
        obtain ⟨later, hlater, rfl⟩ := Option.map_eq_some_iff.mp h
        obtain ⟨front, back, rfl, rfl, hwhole, hcut⟩ := ih hlater
        rw [← step_topCutter] at hwhole hcut
        rw [← cuts_topCutter_iff hc, Bool.not_eq_true] at hno
        exact ⟨d :: front, back, rfl, rfl, Cutter.whole_char_cons.mpr ⟨hno, hwhole⟩, hcut⟩

/-- Splitting a text without quotes is searching again and again. If the separator, any character
but an equals sign or a bracket, is not found outside of all brackets, the text is the only part. If
it is found, the first part stands before it, and the others are the parts of what stands behind
it. -/
theorem splitTop_search (text : Text) (c : Char) (hquotes : Unquoted text)
    (hc : c ∉ ['=', '(', ')', '[', ']', '\x7b', '\x7d', '<', '>']) :
    (topLevel? [c] text = none → splitTop text (· == c) = filledParts [text]) ∧
      ∀ place, topLevel? [c] text = some place →
        splitTop text (· == c) =
          filledParts [text.take place] ++ splitTop (text.drop (place + 1)) (· == c) := by
  have hinert : isInert c = true := by
    simp only [List.mem_cons, List.not_mem_nil, or_false, not_or] at hc
    simp [isInert, Brackets.all, Brackets.opens, Brackets.closes, hc]
  have hsearch : topLevel? [c] text = topLevelFrom? [c] 0 none text := by
    simp [topLevel?]
  rw [hsearch]
  constructor
  · intro hnone
    have hwhole := topLevelFrom?_eq_none hinert hnone
    rw [Option.none_beq_some, ← pieces_of_unquoted hquotes false] at hwhole
    exact splitTop_of_whole hwhole
  · intro place hsome
    -- the search finds the first cut, and what is behind it is split as a text of its own
    obtain ⟨front, back, rfl, rfl, hwhole, hcut⟩ := topLevelFrom?_eq_some hinert hsome
    rw [Option.none_beq_some] at hwhole hcut
    have hback : Unquoted back := fun d hd => hquotes d (by simp [hd])
    have hsegments := Cutter.segments_of_cut (restarts_topCutter _ _) hwhole hcut
      (back.map Piece.char)
    rw [flatMap_chars_map] at hsegments
    rw [List.take_left, ← List.drop_drop, List.drop_left, List.drop_one, List.tail_cons,
      splitTop_eq, splitTop_eq, pieces_of_unquoted hquotes, pieces_of_unquoted hback,
      ← filledParts_cons, List.map_append, List.map_cons]
    exact congrArg filledParts hsegments

/-- Brackets that close nothing and an arrow before separators, of which the first is in
brackets. -/
def strayRow : Text := "f) => <a; b>; ]; g".toList

theorem splitTop_search_strayRow :
    topLevel? [';'] strayRow = some 12 ∧
      splitTop strayRow (· == ';') = ["f) => <a; b>".toList, "]".toList, "g".toList] := by
  have hplace : topLevel? [';'] strayRow = some 12 := by decide +kernel
  have hbehind : splitTop (strayRow.drop 13) (· == ';') = ["]".toList, "g".toList] := by
    decide +kernel
  refine ⟨hplace, ?_⟩
  rw [(splitTop_search strayRow ';' (forall_chars (by decide)) (by decide)).2 12 hplace, hbehind]
  decide +kernel

end Search

/-! ## Units -/

/-- Whether a line break stands at a place of a block outside of all literals, braces and
parentheses. -/
def BreaksAt (text : Text) (place : Nat) : Prop := lineCutter.CutsAt (pieces true text) place

/-- The units of a body are its segments, up to an empty one at the end. -/
theorem segments_eq_units (text : Text) :
    lineCutter.segments (0, 0) (pieces true text) = units text ∨
      lineCutter.segments (0, 0) (pieces true text) = units text ++ [[]] := by
  rw [segments_lineCutter, units]
  split
  · rename_i hlast
    obtain ⟨front, hfront⟩ := List.getLast?_eq_some_iff.mp hlast
    rw [hfront, List.dropLast_concat]
    exact Or.inr rfl
  · exact Or.inl rfl

/-- Each unit of a body is one of its segments. -/
theorem mem_segments_of_mem_units {text unit : Text} (h : unit ∈ units text) :
    unit ∈ lineCutter.segments (0, 0) (pieces true text) := by
  rcases segments_eq_units text with hsegments | hsegments
  · rwa [hsegments]
  · rw [hsegments]
    exact List.mem_append_left _ h

/-- An empty part at the end adds a separator. -/
theorem join_concat_nil {parts : List Text} (h : parts ≠ []) (c : Char) :
    join [c] (parts ++ [[]]) = join [c] parts ++ [c] := by
  induction parts with
  | nil => exact absurd rfl h
  | cons first rest ih =>
      cases rest with
      | nil => simp [join]
      | cons second more =>
          have hlater := ih (by simp)
          rw [join] at hlater ⊢
          rw [List.cons_append, List.intercalate_cons_of_ne_nil (by simp), hlater, join, join,
            List.intercalate_cons_cons, ← List.append_assoc]

/-- Cutting a block into units loses nothing but one line break at the end and leaves nothing to
cut. Joined by line breaks the units are the block again, and a unit that is not empty is the only
unit of itself. The block is cut at all line breaks outside of literals, braces and parentheses and
nowhere else. -/
theorem units_joined (text : Text) :
    (join ['\n'] (units text) = text ∨ join ['\n'] (units text) ++ ['\n'] = text) ∧
      (∀ unit ∈ units text, unit ≠ [] → units unit = [unit]) ∧
      ∃ cutting : Cutting, cutting.text = text ∧ (∀ cut ∈ cutting.rest, cut.1 = '\n') ∧
        (∀ place, place ∈ cutting.places ↔ BreaksAt text place) ∧
        (cutting.segments = units text ∨ cutting.segments = units text ++ [[]]) := by
  obtain ⟨cutting, htext, hsegments, hplaces, hcuts⟩ :=
    Cutter.exists_cutting restarts_lineCutter (pieces true text)
  have hbreaks : ∀ cut ∈ cutting.rest, cut.1 = '\n' := by
    intro cut hcut
    obtain ⟨state, hstate⟩ := hcuts cut hcut
    exact eq_of_beq (Bool.and_eq_true_iff.mp hstate).1
  have hjoin : join ['\n'] cutting.segments = text := by
    rw [cutting.join_segments '\n' hbreaks, htext, chars_pieces]
  have hunits : cutting.segments = units text ∨ cutting.segments = units text ++ [[]] :=
    hsegments ▸ segments_eq_units text
  refine ⟨?_, fun unit hunit hne => ?_, cutting, htext.trans (chars_pieces true text), hbreaks,
    hplaces, hunits⟩
  · rcases hunits with hall | hempty
    · exact Or.inl (hall ▸ hjoin)
    · rw [hempty] at hjoin
      by_cases hnone : units text = []
      · rw [hnone] at hjoin ⊢
        exact Or.inl hjoin
      · exact Or.inr ((join_concat_nil hnone '\n').symm.trans hjoin)
  · have hwhole := Cutter.whole_of_mem_segments restarts_lineCutter (isRead_pieces true text) unit
      (mem_segments_of_mem_units hunit)
    have hone := Cutter.segments_of_whole hwhole
    rw [chars_pieces] at hone
    rcases segments_eq_units unit with hall | hempty
    · exact hall.symm.trans hone
    -- an empty unit behind it would have to be the unit itself
    · have hconcat : units unit ++ [[]] = [] ++ [unit] := hempty.symm.trans hone
      exact absurd (List.append_inj' hconcat rfl).2 (by simpa using hne.symm)

/-- A line break in parentheses, one in a literal, and two that end units, one of them behind a
parenthesis that closes nothing. -/
def brokenBlock : Text := "f(x,\n y) \x7b \x7d )\n@\"p\n\"\n".toList

theorem units_joined_brokenBlock :
    units brokenBlock = ["f(x,\n y) \x7b \x7d )".toList, "@\"p\n\"".toList] ∧
      units "@\"p\n\"".toList = ["@\"p\n\"".toList] := by
  have hunits : units brokenBlock =
      ["f(x,\n y) \x7b \x7d )".toList, "@\"p\n\"".toList] := by
    decide +kernel
  have hunit := (units_joined brokenBlock).2.1 "@\"p\n\"".toList (by rw [hunits]; simp) (by decide)
  exact ⟨hunits, hunit⟩

end Text

end ClassDiagram
