/-!
# Source text

A source text is the list of its characters. This module holds the cuts and look-ups that know
nothing of the characters' classes: cutting at every separator, the part before or after a mark,
and the place of a pattern.

* `room_cut`: cutting loses no character other than the separators.
-/

namespace ClassDiagram

/-- A source text: its characters, in order. -/
abbrev Text := List Char

namespace Text

/-- Puts `front` before the first of some segments; without any, it becomes the only one. -/
def attach (front : Text) : List Text → List Text
  | [] => [front]
  | segment :: rest => (front ++ segment) :: rest

/-- Cuts at every character that satisfies `separates`; empty segments are kept. -/
def cut (separates : Char → Bool) : Text → List Text
  | [] => [[]]
  | c :: rest =>
    if separates c then [] :: cut separates rest else attach [c] (cut separates rest)

theorem attach_ne_nil (front : Text) (segments : List Text) : attach front segments ≠ [] := by
  cases segments <;> simp [attach]

theorem cut_ne_nil (separates : Char → Bool) (text : Text) : cut separates text ≠ [] := by
  cases text with
  | nil => simp [cut]
  | cons c rest =>
    rw [cut]
    split
    · simp
    · exact attach_ne_nil _ _

/-- What stands before the first `mark`, or the whole text without one. -/
def upTo (mark : Char) (text : Text) : Text := text.takeWhile (· != mark)

/-- What stands behind the first `mark`, or nothing without one. -/
def past (mark : Char) (text : Text) : Text := (text.dropWhile (· != mark)).drop 1

/-- What stands behind the last `mark`, or the whole text without one. -/
def pastLast (mark : Char) (text : Text) : Text :=
  (text.reverse.takeWhile (· != mark)).reverse

/-- The last segment of a dotted name. -/
def simpleName (name : Text) : Text := pastLast '.' name

/-- The place of the first occurrence of `pattern`. -/
def indexOf? (pattern : Text) : Text → Option Nat
  | [] => if pattern.isEmpty then some 0 else none
  | c :: rest =>
    if pattern.isPrefixOf (c :: rest) then some 0 else (indexOf? pattern rest).map (· + 1)

/-- Whether `pattern` occurs anywhere. -/
def includes (text pattern : Text) : Bool := (indexOf? pattern text).isSome

/-- The parts, with `separator` between each two of them. -/
def join (separator : Text) (parts : List Text) : Text := separator.intercalate parts

theorem length_past_le (mark : Char) (text : Text) : (past mark text).length ≤ text.length := by
  have h := (List.dropWhile_sublist (· != mark) (l := text)).length_le
  simp only [past, List.length_drop]
  omega

/-! ### Room -/

/-- The room that segments and one separator behind each of them take. -/
def room (segments : List Text) : Nat := segments.foldr (fun s rest => s.length + 1 + rest) 0

@[simp] theorem room_nil : room [] = 0 := rfl

@[simp] theorem room_cons (segment : Text) (rest : List Text) :
    room (segment :: rest) = segment.length + 1 + room rest := rfl

theorem room_attach {front : Text} {segments : List Text} (h : segments ≠ []) :
    room (attach front segments) = front.length + room segments := by
  cases segments with
  | nil => exact absurd rfl h
  | cons first rest =>
    simp only [attach, room_cons, List.length_append]
    omega

theorem room_cut (separates : Char → Bool) (text : Text) :
    room (cut separates text) = text.length + 1 := by
  induction text with
  | nil => simp [cut]
  | cons c rest ih =>
    rw [cut]
    split
    · simp only [room_cons, ih, List.length_nil, List.length_cons]
      omega
    · rw [room_attach (cut_ne_nil _ _), ih]
      simp only [List.length_cons, List.length_nil]
      omega

theorem room_filter_le (keeps : Text → Bool) (segments : List Text) :
    room (segments.filter keeps) ≤ room segments := by
  induction segments with
  | nil => simp
  | cons first rest ih =>
    rw [List.filter_cons]
    split
    · simp only [room_cons]
      omega
    · simp only [room_cons]
      omega

theorem length_join_blank (segments : List Text) :
    (join [' '] segments).length = room segments - 1 := by
  induction segments with
  | nil => simp [join]
  | cons first rest ih =>
    cases rest with
    | nil => simp [join]
    | cons second rest =>
      rw [join] at ih ⊢
      rw [List.intercalate_cons_cons, List.length_append, List.length_append, ih]
      simp only [room_cons, List.length_cons, List.length_nil]
      omega

end Text

end ClassDiagram
