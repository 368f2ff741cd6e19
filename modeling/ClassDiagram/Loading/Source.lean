import ClassDiagram.Reader.CSharp
import ClassDiagram.Reader.Java
import ClassDiagram.Reader.Python
import ClassDiagram.Reader.TypeScript

/-!
# Sources

A source is a text to be read in some language. Java is read from the syntax tree of the text, and
cannot be read without one.
-/

namespace ClassDiagram

/-- A text, with its syntax tree if one is at hand. -/
structure Source where
  text : Text
  tree : Option Node := none

namespace Source

/-- The bytes of a source. -/
def bytes (source : Source) : List UInt8 := Utf8.encode source.text

/-- What comes of reading a source in a language. -/
def read (source : Source) : Language → Reading
  | .cSharp => .ofFacts .cSharp (CSharp.facts source.text)
  | .python => .ofFacts .python (Python.facts source.text)
  | .typeScript => .ofFacts .typeScript (TypeScript.facts source.text)
  | .java =>
    match source.tree with
    | some root => Java.read source.bytes root
    | none => { fault := some .grammarMissing }

end Source

end ClassDiagram
