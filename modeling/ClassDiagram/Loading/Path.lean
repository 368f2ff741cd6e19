import ClassDiagram.Text.Basic

/-!
# Paths

Paths as texts with slashes between their components.
-/

namespace ClassDiagram

namespace Path

/-- The components of a path, empty ones included. -/
def components (path : String) : List String :=
  (Text.cut (· == '/') path.toList).map String.ofList

/-- The suffix of the last component, from its last dot on. Dots at the front of the component
start none. -/
def suffix (path : String) : String :=
  let name := Text.pastLast '/' path.toList
  let body := name.dropWhile (· == '.')
  if body.contains '.' then String.ofList ('.' :: Text.pastLast '.' body) else ""

/-- The path of a name in a directory. -/
def join (directory name : String) : String :=
  if directory.isEmpty ∨ directory.toList.getLast? = some '/' then directory ++ name
  else s!"{directory}/{name}"

/-- The slashes that an absolute path starts with: two if there are exactly two, else one. -/
def anchor (path : String) : String :=
  match path.toList with
  | '/' :: '/' :: '/' :: _ => "/"
  | '/' :: '/' :: _ => "//"
  | '/' :: _ => "/"
  | _ => ""

/-- A path without empty components and without components that stay where they are. -/
def normalize (path : String) : String :=
  let kept := (components path).filter fun component => component != "" && component != "."
  let normal := anchor path ++ "/".intercalate kept
  if normal.isEmpty then "." else normal

end Path

end ClassDiagram
