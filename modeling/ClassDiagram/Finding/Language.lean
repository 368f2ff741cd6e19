import ClassDiagram.Catalog
import ClassDiagram.TypeExpr.Dialect

/-!
# Languages

The languages whose sources are read.
-/

namespace ClassDiagram

/-- A language whose sources are read. -/
inductive Language where
  | cSharp
  | java
  | python
  | typeScript
  deriving DecidableEq, Repr

namespace Language

/-- The key that selects a language. -/
def key : Language → String
  | cSharp => "csharp"
  | java => "java"
  | python => "python"
  | typeScript => "typescript"

/-- The tag of a language in the trace. -/
def tag : Language → String
  | cSharp => "C#"
  | java => "Java"
  | python => "Python"
  | typeScript => "TS"

/-- The rules for its type expressions. -/
def dialect : Language → Dialect
  | cSharp => .cSharp
  | java => .java
  | python => .python
  | typeScript => .typeScript

/-- The suffixes of its files, in lower case and in ascending order. -/
def suffixes : Language → List String
  | cSharp => [".cs"]
  | java => [".java"]
  | python => [".py", ".pyi"]
  | typeScript => [".cts", ".mts", ".ts"]

/-- Whether files with a suffix are written in it; case does not matter. -/
def accepts (language : Language) (suffix : String) : Bool :=
  language.suffixes.contains suffix.toLower

/-- The name under which the reader of a language is listed. -/
def reader : Language → String
  | cSharp => "CSharpExtractor"
  | java => "JavaExtractor"
  | python => "PythonExtractor"
  | typeScript => "TypeScriptExtractor"

/-- The settings that the reader of a language takes. -/
def settings : Language → Settings
  | java => .only ["backend"]
  | _ => .closed

/-- The languages under their keys. -/
def catalog : Catalog Language where
  name := "extractor"
  entries := [cSharp, java, python, typeScript].map fun language =>
    ⟨language.key, language.reader, language, language.settings⟩

end Language

end ClassDiagram
