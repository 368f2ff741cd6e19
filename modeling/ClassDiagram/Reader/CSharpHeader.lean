import ClassDiagram.Reader.Header

/-!
# Declaration headers of C#

A header is a keyword and a name: `class`, `interface`, `struct`, `record`, `enum`, and `record`
with `class` or `struct` behind it. A modifier or a keyword is reserved and names no type.
-/

namespace ClassDiagram

namespace CSharp

/-- The words that modify a member. -/
def modifiers : List String := [
  "public", "private", "protected", "internal", "static", "virtual", "override",
  "abstract", "async", "sealed", "new", "extern", "unsafe", "partial", "readonly",
  "const", "volatile", "event", "required", "fixed", "implicit", "explicit"]

/-- The words that modify a parameter. -/
def parameterModifiers : List String :=
  ["ref", "out", "in", "params", "this", "scoped", "readonly"]

/-- The keywords that announce a type. -/
def typeKeywords : List String := ["class", "interface", "struct", "record", "enum"]

/-- Whether a word cannot be the name of a type. -/
def isReserved (word : String) : Bool :=
  modifiers.contains word || word == "where" || typeKeywords.contains word

/-- Splits off a name that may be marked by an at sign. -/
def markedName? : Text → Option (Text × Text)
  | '@' :: rest => (Text.name? rest).map fun (name, behind) => ('@' :: name, behind)
  | text => Text.name? text

/-- The name of a type behind a keyword: blanks, then the name. -/
def nameBehind? (text : Text) : Option (Text × Text) := (Text.afterBlanks? text).bind markedName?

/-- The name behind the keyword `record`: a `class` or `struct` in between is passed over if a
name follows it. -/
def recordName? (text : Text) : Option (Text × Text) :=
  let longForm := (Text.afterBlanks? text).bind fun inner =>
    let (word, behind) := Text.spanWord inner
    if String.ofList word = "class" ∨ String.ofList word = "struct" then nameBehind? behind
    else none
  -- if no name follows the word, it is read as the name, and is reserved as such
  longForm.or (nameBehind? text)

/-- The header at the front of a text: keyword, name and what follows. -/
def header? (text : Text) : Option (String × Text × Text) :=
  let (word, behind) := Text.spanWord text
  let keyword := String.ofList word
  if typeKeywords.contains keyword then
    let found := if keyword = "record" then recordName? behind else nameBehind? behind
    found.map fun (name, rest) => (keyword, name, rest)
  else none

theorem length_lt_of_markedName? {text name rest : Text} (h : markedName? text = some (name, rest)) :
    rest.length < text.length := by
  unfold markedName? at h
  split at h
  · obtain ⟨⟨inner, behind⟩, hinner, heq⟩ := Option.map_eq_some_iff.1 h
    have := Text.length_lt_of_nameBy? hinner
    simp only [Prod.mk.injEq] at heq
    rw [← heq.2, List.length_cons]
    omega
  · exact Text.length_lt_of_nameBy? h

theorem length_lt_of_nameBehind? {text name rest : Text}
    (h : nameBehind? text = some (name, rest)) : rest.length < text.length := by
  obtain ⟨inner, hinner, hname⟩ := Option.bind_eq_some_iff.1 h
  have := Text.length_lt_of_afterBlanks? hinner
  have := length_lt_of_markedName? hname
  omega

theorem length_lt_of_recordName? {text name rest : Text}
    (h : recordName? text = some (name, rest)) : rest.length < text.length := by
  simp only [recordName?] at h
  rcases Option.or_eq_some_iff.1 h with hlong | ⟨_, hshort⟩
  · obtain ⟨inner, hinner, hname⟩ := Option.bind_eq_some_iff.1 hlong
    split at hname
    · have h1 := Text.length_lt_of_afterBlanks? hinner
      have h2 := Text.length_spanWord_le inner
      have h3 := length_lt_of_nameBehind? hname
      omega
    · simp at hname
  · exact length_lt_of_nameBehind? hshort

theorem length_lt_of_header? {text name rest : Text} {keyword : String}
    (h : header? text = some (keyword, name, rest)) : rest.length < text.length := by
  simp only [header?] at h
  split at h
  · obtain ⟨⟨inner, behind⟩, hfound, heq⟩ := Option.map_eq_some_iff.1 h
    simp only [Prod.mk.injEq] at heq
    have h1 := Text.length_spanWord_le text
    have h2 : behind.length < (Text.spanWord text).2.length := by
      split at hfound
      · exact length_lt_of_recordName? hfound
      · exact length_lt_of_nameBehind? hfound
    rw [← heq.2.2]
    omega
  · simp at h

/-- How headers are written. -/
def headerRule : HeaderRule where
  read? := header?
  isReserved := isReserved
  shorter := length_lt_of_header?

end CSharp

end ClassDiagram
