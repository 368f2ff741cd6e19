import ClassDiagram.Main
import ClassDiagram.Proofs.Drawing.PlantUml
import ClassDiagram.Proofs.Loading.Containment
import ClassDiagram.Proofs.Loading.Records
import ClassDiagram.Proofs.Model.Edges
import ClassDiagram.Proofs.Model.Run
import ClassDiagram.Proofs.Reading.Bodies
import ClassDiagram.Proofs.Reading.BrokenUnions
import ClassDiagram.Proofs.Reading.Declarations
import ClassDiagram.Proofs.Reading.JavaErrors
import ClassDiagram.Proofs.Reading.JavaUses
import ClassDiagram.Proofs.Reading.LinePass
import ClassDiagram.Proofs.Reading.Literals
import ClassDiagram.Proofs.Reading.Merge
import ClassDiagram.Proofs.Reading.Order
import ClassDiagram.Proofs.Reading.PythonBlank
import ClassDiagram.Proofs.Reading.PythonDefaults
import ClassDiagram.Proofs.Reading.PythonScopes
import ClassDiagram.Proofs.Rendered.CSharpClass
import ClassDiagram.Proofs.Rendered.PythonClass
import ClassDiagram.Proofs.Rendered.PythonDefault
import ClassDiagram.Proofs.Rendered.TypeScriptClass
import ClassDiagram.Proofs.Scan.LiteralGrammar
import ClassDiagram.Proofs.Scan.MaskedGroups
import ClassDiagram.Proofs.Scan.Segments
import ClassDiagram.Proofs.Scan.Stripped
import ClassDiagram.Proofs.Scan.TripleQuoted
import ClassDiagram.Proofs.TypeExpr.BaseNames
import ClassDiagram.Proofs.TypeExpr.Depth
import ClassDiagram.Proofs.TypeExpr.Tuples
