import ClassDiagram.Scan.Nesting

/-!
# Splitting outside of all nesting

* `splitTop` cuts at separators and gives the stripped, non-empty parts.
* `units` cuts a block at the line breaks that stand outside of braces and parentheses.
* `length_le_of_mem_splitTop`, `length_lt_of_mem_splitTop`: a part is no longer than the text, and
  shorter if there are several.
-/

namespace ClassDiagram

namespace Text

/-- The segments between the separators at depth zero; literals stay whole. -/
def topSegments (separates : Char → Bool) (brackets : Brackets) (depth : Nat)
    (afterEquals : Bool) : List Piece → List Text
  | [] => [[]]
  | .literal value :: rest =>
    attach value.chars (topSegments separates brackets depth false rest)
  | .char c :: rest =>
    let deeper := brackets.depthAfter depth afterEquals c
    let behind := topSegments separates brackets deeper (c == '=') rest
    if separates c ∧ deeper = 0 then [] :: behind else attach [c] behind

/-- The stripped, non-empty parts between the separators outside of all nesting. -/
def splitTop (text : Text) (separates : Char → Bool := (· == ',')) (angles : Bool := true) :
    List Text :=
  ((topSegments separates ⟨true, angles⟩ 0 false (pieces false text)).map strip).filter
    (fun part => !part.isEmpty)

/-- The segments between the line breaks outside of braces and parentheses, which are counted
apart. -/
def unitSegments (braces parens : Nat) : List Piece → List Text
  | [] => [[]]
  | .literal value :: rest => attach value.chars (unitSegments braces parens rest)
  | .char c :: rest =>
    let braces := if c = '{' then braces + 1 else if c = '}' then braces - 1 else braces
    let parens := if c = '(' then parens + 1 else if c = ')' then parens - 1 else parens
    let behind := unitSegments braces parens rest
    if c = '\n' ∧ braces = 0 ∧ parens = 0 then [] :: behind else attach [c] behind

/-- The units of a block: its lines, where a line break inside braces or parentheses does not
count. A line break at the end opens no further unit. -/
def units (text : Text) : List Text :=
  let segments := unitSegments 0 0 (pieces true text)
  if segments.getLast? = some [] then segments.dropLast else segments

/-! ### Lengths -/

theorem topSegments_ne_nil (separates : Char → Bool) (brackets : Brackets) (depth : Nat)
    (afterEquals : Bool) (pieces : List Piece) :
    topSegments separates brackets depth afterEquals pieces ≠ [] := by
  cases pieces with
  | nil => simp [topSegments]
  | cons piece rest =>
    cases piece with
    | literal value => exact attach_ne_nil _ _
    | char c =>
      rw [topSegments]
      split
      · simp
      · exact attach_ne_nil _ _

theorem room_topSegments (separates : Char → Bool) (brackets : Brackets) (depth : Nat)
    (afterEquals : Bool) (pieces : List Piece) :
    room (topSegments separates brackets depth afterEquals pieces) =
      (pieces.flatMap Piece.chars).length + 1 := by
  fun_induction topSegments separates brackets depth afterEquals pieces with
  | case1 => simp
  | case2 depth _ value rest ih =>
    rw [room_attach (topSegments_ne_nil _ _ _ _ _), ih, List.flatMap_cons, List.length_append,
      Piece.chars]
    omega
  | case3 depth _ c rest deeper behind h ih =>
    simp only [room_cons, List.length_nil, behind, ih, List.flatMap_cons, List.length_append,
      Piece.chars, List.length_cons]
    omega
  | case4 depth _ c rest deeper behind h ih =>
    rw [room_attach (topSegments_ne_nil _ _ _ _ _), ih, List.flatMap_cons, List.length_append,
      Piece.chars]
    simp only [List.length_cons, List.length_nil]
    omega

theorem room_map_strip_le (segments : List Text) : room (segments.map strip) ≤ room segments := by
  induction segments with
  | nil => simp
  | cons first rest ih =>
    have := length_strip_le first
    simp only [List.map_cons, room_cons]
    omega

theorem room_splitTop_le (text : Text) (separates : Char → Bool) (angles : Bool) :
    room (splitTop text separates angles) ≤ text.length + 1 := by
  refine Nat.le_trans (room_filter_le _ _) (Nat.le_trans (room_map_strip_le _) ?_)
  exact Nat.le_of_eq (by rw [room_topSegments, chars_pieces])

theorem length_lt_room_of_mem {part : Text} {parts : List Text} (h : part ∈ parts) :
    part.length + parts.length ≤ room parts := by
  induction parts with
  | nil => simp at h
  | cons first rest ih =>
    have hrest : ∀ parts : List Text, parts.length ≤ room parts := by
      intro parts
      induction parts with
      | nil => simp
      | cons _ _ ih => simp only [List.length_cons, room_cons]; omega
    rcases List.mem_cons.1 h with rfl | h
    · have := hrest rest
      simp only [List.length_cons, room_cons]
      omega
    · have := ih h
      simp only [List.length_cons, room_cons]
      omega

theorem length_le_of_mem_splitTop {text part : Text} {separates : Char → Bool} {angles : Bool}
    (h : part ∈ splitTop text separates angles) : part.length ≤ text.length := by
  have h1 := length_lt_room_of_mem h
  have h2 := room_splitTop_le text separates angles
  have h3 := List.length_pos_of_mem h
  omega

theorem length_lt_of_mem_splitTop {text part : Text} {separates : Char → Bool} {angles : Bool}
    (h : part ∈ splitTop text separates angles) (hmany : 1 < (splitTop text separates angles).length) :
    part.length < text.length := by
  have h1 := length_lt_room_of_mem h
  have h2 := room_splitTop_le text separates angles
  omega

end Text

end ClassDiagram
