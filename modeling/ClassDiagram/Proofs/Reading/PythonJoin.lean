import ClassDiagram.Proofs.Loading.Contribute
import ClassDiagram.Proofs.Scan.LogicalLine

/-!
# Python sources one behind the other

A Python source that ends at a line break leaves no line open, but it may leave scopes open. A line
at the margin closes them all, whatever they are. So a second source may be put behind the first one
if its first line, decorators apart, is at the margin: then both together tell what they tell one
after the other.

* `scopesAfter`: the scopes that some lines leave open, with `factsFrom_append`.
* `startsAtMargin`: the first line that is no decorator is at the margin.
* `facts_append`: the facts of two sources, one behind the other.
* `Session.readAll_joined`: the same for a session, with the logical lines.
-/

namespace ClassDiagram

namespace Python

/-- The scopes that are open behind some lines. -/
def scopesAfter (scopes : List OpenScope) : List LogicalLine → List OpenScope
  | [] => scopes
  | line :: rest =>
    if line.text.head? = some '@' then scopesAfter scopes rest
    else scopesAfter (readLine line.indent (closeScopes line.indent scopes) line.text).1 rest

/-- Lines are read in the scopes that the lines before them leave open. -/
theorem factsFrom_append (scopes : List OpenScope) (lines others : List LogicalLine) :
    factsFrom scopes (lines ++ others) =
      factsFrom scopes lines ++ factsFrom (scopesAfter scopes lines) others := by
  induction lines generalizing scopes with
  | nil => rfl
  | cons line rest ih =>
      rw [List.cons_append, factsFrom, factsFrom, scopesAfter]
      split
      · exact ih scopes
      · dsimp only
        rw [ih, List.append_assoc]

/-- Whether the first line that is no decorator is at the margin, if there is one. -/
def startsAtMargin (lines : List LogicalLine) : Bool :=
  (lines.find? fun line => line.text.head? != some '@').all fun line => line.indent == 0

/-- A line at the margin closes all scopes. -/
theorem closeScopes_zero (scopes : List OpenScope) : closeScopes 0 scopes = [] := by
  induction scopes with
  | nil => rfl
  | cons scope rest ih => exact ih

/-- Lines that start at the margin do not depend on the scopes that are open. -/
theorem factsFrom_of_startsAtMargin {lines : List LogicalLine} (h : startsAtMargin lines = true)
    (scopes others : List OpenScope) : factsFrom scopes lines = factsFrom others lines := by
  induction lines with
  | nil => rfl
  | cons line rest ih =>
      rw [factsFrom, factsFrom]
      by_cases hdecorator : line.text.head? = some '@'
      · rw [if_pos hdecorator, if_pos hdecorator]
        -- a decorator closes no scope, so the next line has to
        refine ih ?_
        rwa [startsAtMargin, List.find?_cons_of_neg (by simp [hdecorator])] at h
      · rw [if_neg hdecorator, if_neg hdecorator]
        rw [startsAtMargin, List.find?_cons_of_pos (by simp [hdecorator])] at h
        have hmargin : line.indent = 0 := by simpa using h
        rw [hmargin, closeScopes_zero, closeScopes_zero]

/-- The facts of a source that ends at a line break and of one behind it that starts at the
margin. -/
theorem facts_append {text more : Text} (hbreak : endsAtBreak text = true)
    (hmargin : startsAtMargin (logicalLines more) = true) :
    facts (text ++ more) = facts text ++ facts more := by
  rw [facts, logicalLines_append hbreak, factsFrom_append, factsFrom_of_startsAtMargin hmargin _ []]
  rfl

end Python

namespace Session

variable (session : Session)

/-- Contributing a Python source adds its facts. -/
theorem readAll_python (text : Text) :
    (session.readAll { text } [.python]).1 =
      session.take ((Python.facts text).map fun fact => ⟨.python, fact⟩) := rfl

/-- Two Python sources, the first of which ends at a line break and the second of which starts at
the margin: put one behind the other they have the logical lines of both, and contributing them so
makes of any session what contributing one after the other does. -/
theorem readAll_joined (text more : Text) (hbreak : Python.endsAtBreak text = true)
    (hmargin : Python.startsAtMargin (Python.logicalLines more) = true) :
    Python.logicalLines (text ++ more) = Python.logicalLines text ++ Python.logicalLines more ∧
      (session.readAll { text := text ++ more } [.python]).1 =
        ((session.readAll { text } [.python]).1.readAll { text := more } [.python]).1 := by
  refine ⟨Python.logicalLines_append hbreak more, ?_⟩
  rw [readAll_python, readAll_python, readAll_python, take_take, ← List.map_append,
    Python.facts_append hbreak hmargin]

/-- A class with brackets and quotes that lead nowhere, which leaves a method open. -/
def hutText : Text :=
  ("class Hut:\n    '''Two (\n'''\n    rooms: list[\nRoom]  # it's\n    def door(self):\n" ++
    "        pass\n").toList

/-- A class behind it, under a decorator that is indented as far as a method. -/
def annexText : Text := "    @sealed\nclass Annex(Hut):\n    roof: Roof\n".toList

/-- A session that has read nothing. -/
def hutSession : Session := { languages := [.python], ignored := [] }

theorem hut_annex_joined :
    Python.endsAtBreak hutText = true ∧
      Python.startsAtMargin (Python.logicalLines annexText) = true ∧
      Python.logicalLines (hutText ++ annexText) =
        Python.logicalLines hutText ++ Python.logicalLines annexText ∧
      (hutSession.readAll { text := hutText ++ annexText } [.python]).1 =
        ((hutSession.readAll { text := hutText } [.python]).1.readAll
          { text := annexText } [.python]).1 := by
  have hbreak : Python.endsAtBreak hutText = true := by decide +kernel
  have hmargin : Python.startsAtMargin (Python.logicalLines annexText) = true := by decide +kernel
  exact ⟨hbreak, hmargin, readAll_joined hutSession hutText annexText hbreak hmargin⟩

end Session

end ClassDiagram
