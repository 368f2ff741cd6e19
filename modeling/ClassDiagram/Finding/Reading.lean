import ClassDiagram.Finding.Basic
import ClassDiagram.Text.Utf8

/-!
# Readings

What comes of reading one source: the findings, and the fault that ended the reading if there was
one. What was found before a fault counts.
-/

namespace ClassDiagram

/-- Why a source cannot be read to its end. -/
inductive Fault where
  /-- No grammar is at hand for the language. -/
  | grammarMissing
  /-- The syntax tree has an error near a line; zero stands for no line. -/
  | syntaxError (line : Nat)
  /-- A node lacks a child that it should have. -/
  | childMissing
  /-- The text of a node does not decode. -/
  | undecodable (error : Utf8.DecodeError)
  deriving DecidableEq, Repr

/-- A fault in words. -/
def Fault.message : Fault → String
  | grammarMissing =>
    "tree-sitter and tree-sitter-java are required to read Java sources. " ++
      "Install them via `pip install tree-sitter tree-sitter-java`."
  | syntaxError line => s!"syntax error near line {line}"
  | childMissing => "list index out of range"
  | undecodable error => error.message

/-- The findings of one source, and the fault that ended its reading. -/
structure Reading where
  findings : List Finding := []
  fault : Option Fault := none
  deriving DecidableEq, Repr

namespace Reading

/-- A reading to the end. -/
def ofFacts (language : Language) (facts : List Fact) : Reading :=
  { findings := facts.map (Finding.mk language) }

/-- A reading step by step, up to the first step that faults. -/
def ofSteps (language : Language) : List (Except Fault Fact) → Reading
  | [] => {}
  | .error fault :: _ => { fault := some fault }
  | .ok fact :: rest =>
    let later := ofSteps language rest
    { later with findings := ⟨language, fact⟩ :: later.findings }

end Reading

end ClassDiagram
