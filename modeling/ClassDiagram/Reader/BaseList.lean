import ClassDiagram.Scan.Group
import ClassDiagram.Text.Word

/-!
# Entries of a base list

An entry of a base list is a dotted name with or without type arguments.
-/

namespace ClassDiagram

namespace Text

/-- The name of an entry without its qualifiers, and what its angle brackets hold. -/
def baseAndArguments (entry : Text) : Text × Text :=
  match indexOf? ['<'] entry with
  | none => (entry.simpleName, [])
  | some start =>
    ((strip (entry.take start)).simpleName, (splitGroup (entry.drop start)).1)

/-- What stands behind every whole word `word`, up to the next one. -/
def clauses (word : String) (text : Text) : List Text :=
  match h : wordPlace? word text with
  | none => []
  | some place =>
    let behind := (text.drop (place + 1)).drop (word.length - 1)
    let here :=
      match wordPlace? word behind with
      | some next => behind.take next
      | none => behind
    here :: clauses word behind
termination_by text.length
decreasing_by
  have : text ≠ [] := by
    rintro rfl
    simp [wordPlace?, wordPlaceFrom?] at h
  have := List.length_pos_iff.2 this
  simp only [List.length_drop]
  omega

end Text

end ClassDiagram
