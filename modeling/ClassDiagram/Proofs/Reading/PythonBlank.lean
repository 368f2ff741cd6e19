import ClassDiagram.Proofs.Reading.PythonJoin
import ClassDiagram.Proofs.Rendered.PythonLine

/-!
# Lines of Python that hold nothing

A line of spaces and tabs, with or without a comment behind them, is no logical line. Its indentation
is read like any other, but nothing is left that could carry it, and nothing in the comment is looked
at before the line break. So such a line may stand wherever a line may begin, and what is read behind
it is read in the same scopes.

* `BlankLine`: spaces and tabs, and a comment if there is one.
* `scan_comment`: a comment is passed over whatever is in it.
* `logicalLines_blank`: the lines of a source that begins with a line of this kind.
* `Session.readAll_blank`: such a line in the middle of a source.
-/

namespace ClassDiagram

namespace Python

/-- A line that holds nothing: spaces and tabs, and behind them a comment if there is one. -/
structure BlankLine where
  lead : Text
  comment : Option Text
  indents : ∀ c ∈ lead, isIndent c = true
  unbroken : ∀ words ∈ comment, '\n' ∉ words

namespace BlankLine

/-- What stands behind the indentation. -/
def tail (line : BlankLine) : Text := line.comment.elim [] ('#' :: ·)

/-- A line as it is written, without its line break. -/
def text (line : BlankLine) : Text := line.lead ++ line.tail

end BlankLine

/-! ## Reading over a comment -/

/-- Nothing in a comment counts, and the line break behind it is read as if it were not there. -/
theorem scan_comment (depth : Nat) {words : Text} (h : '\n' ∉ words) (rest : Text) :
    scan depth ('#' :: (words ++ '\n' :: rest)) = scan depth ('\n' :: rest) := by
  have hpassed : ∀ c ∈ words, (c != '\n') = true := by
    intro c hc
    exact bne_iff_ne.mpr fun heq => h (heq ▸ hc)
  have hmove : move depth '#' (words ++ '\n' :: rest) = ⟨[], depth, '\n' :: rest, false⟩ := by
    rw [move_of_comment, List.dropWhile_append_of_pos hpassed,
      List.dropWhile_cons_of_neg (by simp)]
  rw [scan_cons_eq, hmove, if_neg (by simp)]
  rfl

namespace BlankLine

variable (line : BlankLine) (rest : Text)

/-- Behind the indentation nothing is read up to the line break. -/
theorem scan_tail : scan 0 (line.tail ++ '\n' :: rest) = ([], rawLines rest) := by
  have hunbroken := line.unbroken
  rw [tail]
  cases hcomment : line.comment with
  | none => exact scan_break rest
  | some words => exact (scan_comment 0 (hunbroken words hcomment) rest).trans (scan_break rest)

/-- The indentation ends where the comment or the line break stands. -/
theorem splitIndent_text :
    splitIndent (line.text ++ '\n' :: rest) = (columns line.lead, line.tail ++ '\n' :: rest) := by
  have hstop : ∃ c more, line.tail ++ '\n' :: rest = c :: more ∧ isIndent c = false := by
    rw [tail]
    cases line.comment with
    | none => exact ⟨'\n', rest, rfl, by decide⟩
    | some words => exact ⟨'#', words ++ '\n' :: rest, rfl, by decide⟩
  obtain ⟨c, more, hmore, hc⟩ := hstop
  rw [text, List.append_assoc, hmore, splitIndent, List.takeWhile_append_of_pos line.indents,
    List.dropWhile_append_of_pos line.indents, List.takeWhile_cons_of_neg (by simp [hc]),
    List.dropWhile_cons_of_neg (by simp [hc]), List.append_nil]

/-- A line that holds nothing is read as an empty line, which keeps its indentation to itself. -/
theorem rawLines_text :
    rawLines (line.text ++ '\n' :: rest) = (columns line.lead, []) :: rawLines rest := by
  rw [rawLines, splitIndent_text]
  dsimp only
  rw [scan_tail]

end BlankLine

/-- A line that holds nothing is no logical line. -/
theorem logicalLines_blank (line : BlankLine) (rest : Text) :
    logicalLines (line.text ++ '\n' :: rest) = logicalLines rest := by
  rw [logicalLines, line.rawLines_text, List.filterMap_cons]
  rfl

end Python

/-! ## In the middle of a source -/

namespace Session

variable (session : Session)

/-- A line that holds nothing may be put wherever a source comes to a line break that counts: the
source keeps its logical lines, and contributing it makes the same of any session. -/
theorem readAll_blank (front back : Text) (line : Python.BlankLine)
    (hbreak : Python.endsAtBreak front = true) :
    Python.logicalLines (front ++ (line.text ++ '\n' :: back)) =
        Python.logicalLines (front ++ back) ∧
      session.readAll { text := front ++ (line.text ++ '\n' :: back) } [.python] =
        session.readAll { text := front ++ back } [.python] := by
  have hlines : Python.logicalLines (front ++ (line.text ++ '\n' :: back)) =
      Python.logicalLines (front ++ back) := by
    rw [Python.logicalLines_append hbreak, Python.logicalLines_append hbreak,
      Python.logicalLines_blank]
  have hfacts : Python.facts (front ++ (line.text ++ '\n' :: back)) =
      Python.facts (front ++ back) :=
    congrArg (Python.factsFrom []) hlines
  refine ⟨hlines, Prod.ext ?_ rfl⟩
  rw [readAll_python, readAll_python, hfacts]

/-- A class with a method, up to a line break inside the method. -/
def cabinFront : Text := "class Cabin:\n    door: Door\n    def air(self):\n        pass\n".toList

/-- What follows it: a field of the class, which would be lost in the method if it were indented any
further. -/
def cabinBack : Text := "    bunk: list[\n  Bunk]\n".toList

/-- A comment that is indented by a tab, with brackets and quotes that are never closed. -/
def cabinRemark : Python.BlankLine where
  lead := [' ', '\t']
  comment := some " it's ([ \"\"\" # \\".toList
  indents := Text.forall_chars (by decide)
  unbroken := by
    intro words hwords
    cases hwords
    decide

theorem cabin_blank :
    Python.endsAtBreak cabinFront = true ∧
      cabinRemark.text = " \t# it's ([ \"\"\" # \\".toList ∧
      Python.logicalLines (cabinFront ++ (cabinRemark.text ++ '\n' :: cabinBack)) =
        Python.logicalLines (cabinFront ++ cabinBack) ∧
      hutSession.readAll { text := cabinFront ++ (cabinRemark.text ++ '\n' :: cabinBack) }
          [.python] =
        hutSession.readAll { text := cabinFront ++ cabinBack } [.python] ∧
      Python.logicalLines (cabinFront ++ cabinBack) =
        [⟨0, "class Cabin:".toList⟩, ⟨4, "door: Door".toList⟩, ⟨4, "def air(self):".toList⟩,
          ⟨8, "pass".toList⟩, ⟨4, "bunk: list[   Bunk]".toList⟩] := by
  have hbreak : Python.endsAtBreak cabinFront = true := by decide +kernel
  obtain ⟨hlines, hsession⟩ := readAll_blank hutSession cabinFront cabinBack cabinRemark hbreak
  exact ⟨hbreak, by decide, hlines, hsession, by decide +kernel⟩

end Session

end ClassDiagram
