import ClassDiagram.Catalog
import ClassDiagram.Drawing.Mermaid
import ClassDiagram.Drawing.PlantUml

/-!
# Formats

The formats in which a model can be drawn.
-/

namespace ClassDiagram

/-- A format of drawings. -/
inductive Format where
  | plantUml
  | mermaid
  deriving DecidableEq, Repr

namespace Format

/-- The drawing of a model in a format. The indentation of members can be chosen in PlantUML. -/
def render (format : Format) (model : Model) (indent : String := "  ") : String :=
  match format with
  | plantUml => PlantUml.render model indent
  | mermaid => Mermaid.render model

/-- The formats under their keys. -/
def catalog : Catalog Format where
  name := "emitter"
  entries := [
    ⟨"plantuml", "PlantUmlEmitter", plantUml, .only ["indent"]⟩,
    ⟨"mermaid", "MermaidEmitter", mermaid, .only []⟩]

end Format

end ClassDiagram
