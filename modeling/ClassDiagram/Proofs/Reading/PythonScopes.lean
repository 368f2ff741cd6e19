import ClassDiagram.Proofs.Reading.PythonJoin

/-!
# Which scopes enclose a line

The open scopes are kept on a stack while lines are read, and a line first closes what it does not
stand in. Said without a stack: the scopes that line `j` opened are open at line `k` if every line
behind `j` up to `k` is indented further than `j`. Decorators do not count.

The stack is ordered by indentation, but not strictly, as a header that stands behind another one on
the same line has the indentation of that line. All scopes of one line are closed together, and a line
that is indented between two levels closes what is inside of it.

* `Encloses`: the relation between two lines.
* `exists_opened`: a line opens scopes of its own indentation on top of those that are open.
* `closeScopes_of_ordered`: in an ordered stack, closing keeps exactly what is indented less.
* `reverse_scopesAfter`: what some lines leave open, as the invariant of the reading.
* `openAt_enclosing`: what is open at a line, and that the facts of a source are read so.
-/

namespace ClassDiagram

namespace Python

/-- Whether a line is a decorator, which neither closes a scope nor says anything. -/
def LogicalLine.IsDecorator (line : LogicalLine) : Prop := line.text.head? = some '@'

instance (line : LogicalLine) : Decidable line.IsDecorator :=
  inferInstanceAs (Decidable (line.text.head? = some '@'))

/-! ## One line -/

section Line

variable (indent : Nat) (scopes : List OpenScope) (text : Text)

/-- The scopes that a line opens, innermost first: those that stand before the ones that were
open. -/
def opened : List OpenScope :=
  (readLine indent scopes text).1.take ((readLine indent scopes text).1.length - scopes.length)

/-- Reading a line opens scopes at its indent and closes none. -/
theorem exists_opened :
    ∃ inner, (readLine indent scopes text).1 = inner ++ scopes ∧
      ∀ scope ∈ inner, scope.indent = indent := by
  refine readLine_induct (motive := fun scopes read => ∃ inner, read.1 = inner ++ scopes ∧
    ∀ scope ∈ inner, scope.indent = indent) ?header ?function ?statement ?append scopes text
  case header => exact fun scopes _ _ _ _ _ => ⟨[⟨indent, .body _⟩], rfl, by simp⟩
  case function => exact fun scopes name parts => ⟨[⟨indent, _⟩], rfl, by simp⟩
  case statement => exact fun scopes line => ⟨[], rfl, by simp⟩
  case append =>
    -- what stands behind a header is read on top of what the header opened
    rintro scopes next last told more ⟨inner, hnext, hinner⟩ ⟨innermost, hlast, hinnermost⟩
    dsimp only at hnext hlast
    refine ⟨innermost ++ inner, ?_, List.forall_mem_append.mpr ⟨hinnermost, hinner⟩⟩
    rw [hlast, hnext, List.append_assoc]

/-- A line only opens scopes, on top of those that are open. -/
theorem readLine_opened :
    (readLine indent scopes text).1 = opened indent scopes text ++ scopes := by
  obtain ⟨inner, hread, -⟩ := exists_opened indent scopes text
  rw [opened, hread]
  simp

/-- What a line opens has the indentation of the line. -/
theorem indent_of_mem_opened : ∀ scope ∈ opened indent scopes text, scope.indent = indent := by
  obtain ⟨inner, hread, hinner⟩ := exists_opened indent scopes text
  have heq : opened indent scopes text = inner :=
    List.append_cancel_right ((readLine_opened indent scopes text).symm.trans hread)
  rwa [heq]

end Line

/-! ## The stack is ordered -/

/-- Whether no scope is indented further than one inside of it. -/
def Ordered (scopes : List OpenScope) : Prop :=
  scopes.Pairwise fun inner outer => outer.indent ≤ inner.indent

/-- In an ordered stack, exactly the scopes that are indented less than a line are left open by
it. -/
theorem closeScopes_of_ordered {scopes : List OpenScope} (h : Ordered scopes) (indent : Nat) :
    closeScopes indent scopes = scopes.filter fun scope => scope.indent < indent := by
  induction scopes with
  | nil => rfl
  | cons scope outer ih =>
      obtain ⟨houter, hrest⟩ := List.pairwise_cons.mp h
      by_cases hclose : indent ≤ scope.indent
      · rw [closeScopes, List.dropWhile_cons_of_pos (by simpa using hclose),
          List.filter_cons_of_neg (by simpa using hclose)]
        exact ih hrest
      -- the innermost scope stays, and so does all that is around it
      · have hopen : ∀ other ∈ scope :: outer, other.indent < indent := by
          refine List.forall_mem_cons.mpr ⟨by omega, fun other hother => ?_⟩
          have := houter other hother
          omega
        rw [closeScopes, List.dropWhile_cons_of_neg (by simpa using hclose),
          List.filter_eq_self.mpr (by simpa using hopen)]

/-- Reading a line keeps the scopes in order of their indents. -/
theorem Ordered.readLine {scopes : List OpenScope} (h : Ordered scopes) (indent : Nat)
    (text : Text) : Ordered (readLine indent (closeScopes indent scopes) text).1 := by
  have hopened := indent_of_mem_opened indent (closeScopes indent scopes) text
  rw [readLine_opened]
  refine List.pairwise_append.mpr ⟨?_, h.sublist (List.dropWhile_sublist _), ?_⟩
  · refine List.pairwise_iff_forall_sublist.mpr fun hpair => ?_
    rw [hopened _ (hpair.subset (by simp)), hopened _ (hpair.subset (by simp))]
  · intro inner hinner outer houter
    rw [closeScopes_of_ordered h, List.mem_filter, decide_eq_true_eq] at houter
    rw [hopened inner hinner]
    exact Nat.le_of_lt houter.2

/-- Reading lines keeps the scopes in order of their indents. -/
theorem Ordered.scopesAfter {scopes : List OpenScope} (h : Ordered scopes)
    (lines : List LogicalLine) : Ordered (scopesAfter scopes lines) := by
  induction lines generalizing scopes with
  | nil => exact h
  | cons line rest ih =>
      rw [Python.scopesAfter]
      split
      · exact ih h
      · exact ih (h.readLine line.indent line.text)

/-! ## Lines by their places -/

/-- Lines are read one after the other. -/
theorem scopesAfter_append (scopes : List OpenScope) (lines others : List LogicalLine) :
    scopesAfter scopes (lines ++ others) = scopesAfter (scopesAfter scopes lines) others := by
  induction lines generalizing scopes with
  | nil => rfl
  | cons line rest ih =>
      rw [List.cons_append, scopesAfter, scopesAfter]
      split
      · exact ih scopes
      · exact ih _

section Places

variable (lines : List LogicalLine)

/-- The scopes that are open when line `k` is read, innermost first: those that the lines before it
left open and that it does not close. -/
def openAt (k : Nat) : List OpenScope :=
  lines[k]?.elim [] fun line => closeScopes line.indent (scopesAfter [] (lines.take k))

/-- The scopes that line `k` opens, innermost first. -/
def openedAt (k : Nat) : List OpenScope :=
  lines[k]?.elim [] fun line =>
    if line.IsDecorator then [] else opened line.indent (openAt lines k) line.text

/-- What line `k` tells in the scopes that are open there. -/
def factsAt (k : Nat) : List Fact :=
  lines[k]?.elim [] fun line =>
    if line.IsDecorator then [] else (readLine line.indent (openAt lines k) line.text).2

/-- Whether no line behind `j` and before `k` closes what line `j` opens: all of them are indented
further, decorators apart. -/
def StaysOpen (j k : Nat) : Prop :=
  ∀ header ∈ lines[j]?, ∀ i < k, j < i → ∀ line ∈ lines[i]?, ¬ line.IsDecorator →
    header.indent < line.indent

/-- Whether every line behind `j` up to `k` is indented further than line `j`, decorators apart. -/
def Encloses (j k : Nat) : Prop :=
  ∀ header ∈ lines[j]?, ∀ i ≤ k, j < i → ∀ line ∈ lines[i]?, ¬ line.IsDecorator →
    header.indent < line.indent

instance (j k : Nat) : Decidable (StaysOpen lines j k) :=
  inferInstanceAs (Decidable (∀ header ∈ lines[j]?, ∀ i < k, j < i → ∀ line ∈ lines[i]?,
    ¬ line.IsDecorator → header.indent < line.indent))

instance (j k : Nat) : Decidable (Encloses lines j k) :=
  inferInstanceAs (Decidable (∀ header ∈ lines[j]?, ∀ i ≤ k, j < i → ∀ line ∈ lines[i]?,
    ¬ line.IsDecorator → header.indent < line.indent))

/-- The scopes that the lines at some places open, outermost first. -/
def openedBy (places : List Nat) : List OpenScope :=
  places.flatMap fun j => (openedAt lines j).reverse

end Places

section Places

variable {lines : List LogicalLine} {k : Nat} {line : LogicalLine}

theorem encloses_iff_staysOpen {j : Nat} : Encloses lines j k ↔ StaysOpen lines j (k + 1) := by
  simp only [Encloses, StaysOpen, Nat.lt_succ_iff]

theorem staysOpen_self (lines : List LogicalLine) (k : Nat) : StaysOpen lines k (k + 1) :=
  fun _ _ i hi hk => absurd hi (by omega)

/-- The scopes that a line opens have its indentation. -/
theorem indent_of_mem_openedAt (hline : lines[k]? = some line) :
    ∀ scope ∈ openedAt lines k, scope.indent = line.indent := by
  rw [openedAt, hline, Option.elim_some]
  split
  · simp
  · exact indent_of_mem_opened _ _ _

variable (hline : lines[k]? = some line)
include hline

/-- A decorator opens no scope. -/
theorem openedAt_of_decorator (h : line.IsDecorator) : openedAt lines k = [] := by
  rw [openedAt, hline, Option.elim_some, if_pos h]

/-- Reading a line adds its scopes and tells its facts. -/
theorem readLine_openAt (h : ¬ line.IsDecorator) :
    readLine line.indent (openAt lines k) line.text =
      (openedAt lines k ++ openAt lines k, factsAt lines k) := by
  have hopened : openedAt lines k = opened line.indent (openAt lines k) line.text := by
    rw [openedAt, hline, Option.elim_some, if_neg h]
  have hfacts : factsAt lines k = (readLine line.indent (openAt lines k) line.text).2 := by
    rw [factsAt, hline, Option.elim_some, if_neg h]
  rw [hopened, hfacts, ← readLine_opened]

theorem openAt_eq : openAt lines k = closeScopes line.indent (scopesAfter [] (lines.take k)) := by
  rw [openAt, hline, Option.elim_some]

/-- What line `k` and those before it leave open. -/
theorem scopesAfter_take_succ :
    scopesAfter [] (lines.take (k + 1)) =
      if line.IsDecorator then scopesAfter [] (lines.take k)
      else openedAt lines k ++ openAt lines k := by
  rw [List.take_add_one, hline, Option.toList_some, scopesAfter_append, scopesAfter, scopesAfter]
  split
  · rename_i hdecorator
    exact (if_pos hdecorator).symm
  · rename_i hread
    have hread : ¬ line.IsDecorator := hread
    rw [if_neg hread, ← openAt_eq hline, readLine_openAt hline hread, scopesAfter]

/-- What line `j` opened stays open behind line `k` if that is a decorator or indented further. -/
theorem staysOpen_succ {j : Nat} (hj : j < k) :
    StaysOpen lines j (k + 1) ↔ StaysOpen lines j k ∧
      (line.IsDecorator ∨ ∀ header ∈ lines[j]?, header.indent < line.indent) := by
  constructor
  · intro h
    refine ⟨fun header hheader i hi => h header hheader i (by omega), or_iff_not_imp_left.mpr ?_⟩
    exact fun hread header hheader => h header hheader k (by omega) hj line hline hread
  · rintro ⟨hbefore, hlast⟩ header hheader i hi hji other hother hread
    rcases Nat.lt_or_eq_of_le (Nat.le_of_lt_succ hi) with hi | rfl
    · exact hbefore header hheader i hi hji other hother hread
    · obtain rfl : line = other := Option.some.inj (hline.symm.trans hother)
      exact hlast.resolve_left hread header hheader

end Places

/-! ## The invariant -/

section Invariant

variable {lines : List LogicalLine}

/-- What is indented less, of what some lines opened, is what those of less indentation opened. -/
theorem filter_openedBy (places : List Nat) (indent : Nat) :
    (openedBy lines places).filter (fun scope => scope.indent < indent) =
      openedBy lines (places.filter fun j => ∀ header ∈ lines[j]?, header.indent < indent) := by
  induction places with
  | nil => rfl
  | cons j rest ih =>
      -- the scopes of one line are kept or closed together
      have hscopes : ∀ scope ∈ (openedAt lines j).reverse, decide (scope.indent < indent) =
          decide (∀ header ∈ lines[j]?, header.indent < indent) := by
        intro scope hscope
        cases hline : lines[j]? with
        | none => simp [openedAt, hline] at hscope
        | some header =>
            rw [indent_of_mem_openedAt hline scope (List.mem_reverse.mp hscope)]
            simp
      rw [openedBy, List.flatMap_cons, List.filter_append, List.filter_congr hscopes,
        List.filter_cons]
      by_cases hless : ∀ header ∈ lines[j]?, header.indent < indent
      · rw [decide_eq_true hless, List.filter_true, if_pos rfl]
        exact congrArg _ ih
      · rw [decide_eq_false hless, List.filter_false]
        exact ih

/-- Line `k` closes what it is not inside of, so that what the lines that enclose it opened is
left. -/
theorem reverse_openAt_of_scopesAfter {k : Nat} {line : LogicalLine}
    (hline : lines[k]? = some line) (hread : ¬ line.IsDecorator)
    (hleft : (scopesAfter [] (lines.take k)).reverse =
      openedBy lines ((List.range k).filter fun j => StaysOpen lines j k)) :
    (openAt lines k).reverse = openedBy lines ((List.range k).filter fun j => Encloses lines j k) := by
  have hordered : Ordered (scopesAfter [] (lines.take k)) := Ordered.scopesAfter .nil _
  rw [openAt_eq hline, closeScopes_of_ordered hordered, ← List.filter_reverse, hleft,
    filter_openedBy, List.filter_filter]
  refine congrArg (openedBy lines) (List.filter_congr fun j hj => ?_)
  have hsucc := staysOpen_succ hline (List.mem_range.mp hj)
  simp only [hread, false_or] at hsucc
  simp only [encloses_iff_staysOpen, hsucc, ← Bool.decide_and, and_comm]

/-- The first `k` lines leave open what those among them opened that stays open, outermost first. -/
theorem reverse_scopesAfter {k : Nat} (hk : k ≤ lines.length) :
    (scopesAfter [] (lines.take k)).reverse =
      openedBy lines ((List.range k).filter fun j => StaysOpen lines j k) := by
  induction k with
  | zero => rfl
  | succ k ih =>
      have hline : lines[k]? = some lines[k] := List.getElem?_eq_getElem hk
      have hleft := ih (Nat.le_of_succ_le hk)
      have hsplit : openedBy lines ((List.range (k + 1)).filter fun j => StaysOpen lines j (k + 1)) =
          openedBy lines ((List.range k).filter fun j => StaysOpen lines j (k + 1)) ++
            (openedAt lines k).reverse := by
        rw [List.range_succ, List.filter_append, List.filter_singleton,
          decide_eq_true (staysOpen_self lines k)]
        simp [openedBy]
      rw [hsplit, scopesAfter_take_succ hline]
      by_cases hdecorator : lines[k].IsDecorator
      -- a decorator closes nothing and opens nothing
      · rw [if_pos hdecorator, openedAt_of_decorator hline hdecorator, hleft, List.reverse_nil,
          List.append_nil]
        refine congrArg (openedBy lines) (List.filter_congr fun j hj => ?_)
        simp only [staysOpen_succ hline (List.mem_range.mp hj), hdecorator, true_or, and_true]
      · have hopen := reverse_openAt_of_scopesAfter hline hdecorator hleft
        simp only [encloses_iff_staysOpen] at hopen
        rw [if_neg hdecorator, List.reverse_append, hopen]

/-- What is read of the first `k` lines is what each of them tells in the scopes open there. -/
theorem factsFrom_take {k : Nat} (hk : k ≤ lines.length) :
    factsFrom [] (lines.take k) = (List.range k).flatMap (factsAt lines) := by
  induction k with
  | zero => rfl
  | succ k ih =>
      have hline : lines[k]? = some lines[k] := List.getElem?_eq_getElem hk
      have hlast : factsFrom (scopesAfter [] (lines.take k)) [lines[k]] = factsAt lines k := by
        rw [factsFrom, factsAt, hline, Option.elim_some, openAt_eq hline]
        by_cases hdecorator : lines[k].IsDecorator
        · rw [if_pos hdecorator]
          exact if_pos hdecorator
        · rw [if_neg hdecorator]
          exact (if_neg hdecorator).trans (List.append_nil _)
      rw [List.take_add_one, hline, Option.toList_some, factsFrom_append, ih (Nat.le_of_succ_le hk),
        hlast, List.range_succ, List.flatMap_append, List.flatMap_singleton]

end Invariant

/-- Line `k` of a source, if it is no decorator, is read in the scopes that the lines opened that
enclose it, outermost first. On top of them it opens its own, and what the source tells is what its
lines tell in these scopes. -/
theorem openAt_enclosing (text : Text) (k : Nat) (line : LogicalLine)
    (hline : (logicalLines text)[k]? = some line) (hread : ¬ line.IsDecorator) :
    (openAt (logicalLines text) k).reverse =
        (((List.range k).filter fun j => Encloses (logicalLines text) j k).flatMap fun j =>
          (openedAt (logicalLines text) j).reverse) ∧
      readLine line.indent (openAt (logicalLines text) k) line.text =
        (openedAt (logicalLines text) k ++ openAt (logicalLines text) k,
          factsAt (logicalLines text) k) ∧
      facts text = (List.range (logicalLines text).length).flatMap (factsAt (logicalLines text)) := by
  have hk : k ≤ (logicalLines text).length := Nat.le_of_lt (List.getElem?_eq_some_iff.mp hline).1
  refine ⟨reverse_openAt_of_scopesAfter hline hread (reverse_scopesAfter hk),
    readLine_openAt hline hread, ?_⟩
  rw [facts, ← factsFrom_take (Nat.le_refl _), List.take_length]

/-- A class that holds two others. The first one has a method on its line, and the second one is
indented between the two levels, under a decorator. -/
def millText : Text :=
  ("class Mill:\n        class Wheel: def turn(self): pass\n            gear: Gear\n" ++
    "  @oiled\n    class Sail:\n      area: Cloth\n").toList

theorem logicalLines_mill :
    logicalLines millText = [⟨0, "class Mill:".toList⟩,
      ⟨8, "class Wheel: def turn(self): pass".toList⟩, ⟨12, "gear: Gear".toList⟩,
      ⟨2, "@oiled".toList⟩, ⟨4, "class Sail:".toList⟩, ⟨6, "area: Cloth".toList⟩] := by
  decide +kernel

theorem openAt_enclosing_mill :
    (logicalLines millText)[2]? = some ⟨12, "gear: Gear".toList⟩ ∧
      openAt (logicalLines millText) 2 = [⟨8, .method "Wheel" "turn".toList []⟩,
        ⟨8, .body "Wheel"⟩, ⟨0, .body "Mill"⟩] ∧
      (logicalLines millText)[5]? = some ⟨6, "area: Cloth".toList⟩ ∧
      ((List.range 5).filter fun j => Encloses (logicalLines millText) j 5) = [0, 3, 4] ∧
      openedAt (logicalLines millText) 3 = [] ∧
      (openAt (logicalLines millText) 5).reverse =
        (((List.range 5).filter fun j => Encloses (logicalLines millText) j 5).flatMap fun j =>
          (openedAt (logicalLines millText) j).reverse) := by
  have hline : (logicalLines millText)[5]? = some ⟨6, "area: Cloth".toList⟩ := by
    rw [logicalLines_mill]
    rfl
  have henclosing := (openAt_enclosing millText 5 _ hline (by decide)).1
  rw [logicalLines_mill] at *
  exact ⟨rfl, by decide +kernel, rfl, by decide, by decide +kernel, henclosing⟩

end Python

end ClassDiagram
