import Mathlib.Logic.Relation
import ClassDiagram.Proofs.Scan.Reached

/-!
# The literals of a text by their places

A scan goes through a text from its front and steps over the literal that begins at a place or,
where none does, over one character. The literals that it steps over are the literals of the text:
they do not overlap, and every other place of the text is one at which the scan steps over a
character.

* `Literal.endAt?`: where the literal that begins at a place ends.
* `Text.ScanStep`, `Text.Visited`: the steps of the scan and the places to which it comes.
* `Text.HasLiteral`, `Text.Outside`: the literals of a text and the places outside of them.
* `Text.pieces_of_step`, `Text.Visited.pieces`: the pieces of a text are the steps of the scan.
* `Text.outside_iff`: a place of the text is outside of all literals exactly if the scan comes to it
  and no literal begins there.
-/

namespace ClassDiagram

namespace Literal

variable {text : Text} {place stop : Nat}

theorem length_chars_pos (value : Literal) : 0 < value.chars.length := by
  rw [chars, List.length_append, List.length_cons]
  omega

/-- Where the literal that begins at a place ends. -/
def endAt? (text : Text) (place : Nat) : Option Nat := (end? (text.drop place)).map (· + place)

theorem endAt?_eq_none_iff : endAt? text place = none ↔ read? (text.drop place) = none := by
  simp [endAt?, end?]

/-- A literal that starts at a place ends behind its characters. -/
theorem endAt?_eq_some_iff :
    endAt? text place = some stop ↔
      ∃ value rest, read? (text.drop place) = some (value, rest) ∧
        place + value.chars.length = stop := by
  simp only [endAt?, end?, Option.map_map, Option.map_eq_some_iff, Function.comp_apply, Prod.exists,
    Nat.add_comm place]

/-- What follows a literal that begins at a place is what stands behind its end. -/
theorem drop_of_read? {value : Literal} {rest : Text}
    (h : read? (text.drop place) = some (value, rest)) :
    text.drop (place + value.chars.length) = rest := by
  rw [← List.drop_drop, eq_chars_append_of_read? h, List.drop_left]

/-- A literal is not empty and ends in the text. -/
theorem lt_of_endAt? (h : endAt? text place = some stop) : place < stop ∧ stop ≤ text.length := by
  obtain ⟨value, rest, hread, rfl⟩ := endAt?_eq_some_iff.mp h
  have hlength := congrArg List.length (eq_chars_append_of_read? hread)
  have hpos := value.length_chars_pos
  rw [List.length_drop, List.length_append] at hlength
  omega

/-- No literal begins with a character that is neither quote nor mark. -/
theorem endAt?_of_other {c : Char} (hquote : isQuote c = false) (hmark : isMark c = false)
    (h : text[place]? = some c) : endAt? text place = none := by
  obtain ⟨hplace, rfl⟩ := List.getElem?_eq_some_iff.mp h
  rw [endAt?_eq_none_iff, List.drop_eq_getElem_cons hplace]
  exact Text.cut?_of_other hquote hmark true _

end Literal

namespace Text

variable {text : Text} {place start stop : Nat}

/-! ## The scan -/

/-- One step of a scan: over the literal that begins at a place, or over one character. -/
inductive ScanStep (text : Text) : Nat → Nat → Prop where
  | literal {place stop : Nat} : Literal.endAt? text place = some stop → ScanStep text place stop
  | char {place : Nat} : place < text.length → Literal.endAt? text place = none →
      ScanStep text place (place + 1)

/-- Whether the scan of a text comes to a place. -/
def Visited (text : Text) (place : Nat) : Prop := Relation.ReflTransGen (ScanStep text) 0 place

/-- Whether the scan of a text steps over a literal that begins at `start`. -/
def HasLiteral (text : Text) (start : Nat) (value : Literal) : Prop :=
  Visited text start ∧ ∃ rest, Literal.read? (text.drop start) = some (value, rest)

/-- Whether a place is outside of all literals of a text. -/
def Outside (text : Text) (place : Nat) : Prop :=
  ∀ start value, HasLiteral text start value →
    place < start ∨ start + value.chars.length ≤ place

/-- Every step of the scan goes forward in the text. -/
theorem ScanStep.lt (h : ScanStep text start stop) : start < stop ∧ stop ≤ text.length := by
  cases h with
  | literal hend => exact Literal.lt_of_endAt? hend
  | char hplace _ => exact ⟨Nat.lt_succ_self _, hplace⟩

/-- The scan goes forward. -/
theorem le_of_steps (h : Relation.ReflTransGen (ScanStep text) start stop) : start ≤ stop := by
  induction h with
  | refl => exact Nat.le_refl _
  | tail _ hstep ih => exact Nat.le_trans ih (Nat.le_of_lt hstep.lt.1)

/-- At each place there is one step at most. -/
theorem rightUnique_scanStep (text : Text) : Relator.RightUnique (ScanStep text) := by
  intro place stop other h hother
  cases h with
  | literal hend =>
      cases hother with
      | literal hother => exact Option.some.inj (hend.symm.trans hother)
      | char _ hnone => exact absurd (hend.symm.trans hnone) (by simp)
  | char _ hnone =>
      cases hother with
      | literal hother => exact absurd (hnone.symm.trans hother) (by simp)
      | char _ _ => rfl

/-- Until the end of the text there is a next step. -/
theorem exists_scanStep (h : place < text.length) : ∃ stop, ScanStep text place stop := by
  cases hend : Literal.endAt? text place with
  | some stop => exact ⟨stop, .literal hend⟩
  | none => exact ⟨place + 1, .char h hend⟩

theorem visited_zero (text : Text) : Visited text 0 := .refl

theorem Visited.step (h : Visited text start) (hstep : ScanStep text start stop) :
    Visited text stop :=
  h.tail hstep

/-- A literal of the text ends behind its characters. -/
theorem HasLiteral.endAt? {value : Literal} (h : HasLiteral text start value) :
    Literal.endAt? text start = some (start + value.chars.length) := by
  obtain ⟨-, rest, hread⟩ := h
  exact Literal.endAt?_eq_some_iff.mpr ⟨value, rest, hread, rfl⟩

/-! ## Places inside and outside of literals -/

/-- The scan comes to no place inside of a literal. -/
theorem Visited.le_or_le {value : Literal} (h : Visited text place)
    (hliteral : HasLiteral text start value) :
    place ≤ start ∨ start + value.chars.length ≤ place := by
  rcases Relation.ReflTransGen.total_of_right_unique (rightUnique_scanStep text) h hliteral.1 with
    hbefore | hbehind
  · exact Or.inl (le_of_steps hbefore)
  · rcases Relation.ReflTransGen.cases_head hbehind with rfl | ⟨next, hstep, hlater⟩
    · exact Or.inl (Nat.le_refl _)
    · cases rightUnique_scanStep text hstep (.literal hliteral.endAt?)
      exact Or.inr (le_of_steps hlater)

/-- The scan comes to a place, or the place is inside of a literal. -/
theorem visited_or_inside (h : place ≤ text.length) :
    Visited text place ∨
      ∃ start value, HasLiteral text start value ∧ start < place ∧
        place < start + value.chars.length := by
  -- the last place at or before this one to which the scan comes
  suffices hfrom : ∀ room start, room = place - start → Visited text start → start ≤ place →
      Visited text place ∨ ∃ start value, HasLiteral text start value ∧ start < place ∧
        place < start + value.chars.length from
    hfrom _ 0 rfl (visited_zero text) (Nat.zero_le _)
  intro room
  induction room using Nat.strongRecOn with
  | ind room ih =>
      intro start hroom hvisited hle
      rcases Nat.eq_or_lt_of_le hle with rfl | hlt
      · exact Or.inl hvisited
      · obtain ⟨stop, hstep⟩ := exists_scanStep (Nat.lt_of_lt_of_le hlt h)
        by_cases hstop : stop ≤ place
        · have := hstep.lt.1
          exact ih (place - stop) (by omega) stop rfl (hvisited.step hstep) hstop
        · cases hstep with
          | literal hend =>
              obtain ⟨value, rest, hread, rfl⟩ := Literal.endAt?_eq_some_iff.mp hend
              exact Or.inr ⟨start, value, ⟨hvisited, rest, hread⟩, hlt, Nat.lt_of_not_le hstop⟩
          | char => exact absurd hlt (by omega)

/-- A place of a text is outside of all literals exactly if the scan comes to it and no literal
begins there. -/
theorem outside_iff (h : place < text.length) :
    Outside text place ↔ Visited text place ∧ Literal.endAt? text place = none := by
  constructor
  · intro houtside
    have hvisited : Visited text place := by
      refine (visited_or_inside (Nat.le_of_lt h)).resolve_right ?_
      rintro ⟨start, value, hliteral, hbefore, hbehind⟩
      have := houtside start value hliteral
      omega
    refine ⟨hvisited, Option.eq_none_iff_forall_ne_some.mpr fun stop hend => ?_⟩
    obtain ⟨value, rest, hread, -⟩ := Literal.endAt?_eq_some_iff.mp hend
    have hpos := value.length_chars_pos
    have := houtside place value ⟨hvisited, rest, hread⟩
    omega
  · rintro ⟨hvisited, hnone⟩ start value hliteral
    -- no place inside a literal is visited, so the literal starts later or ends before
    rcases hvisited.le_or_le hliteral with hle | hbehind
    · refine Or.inl (Nat.lt_of_le_of_ne hle ?_)
      rintro rfl
      exact absurd (hnone.symm.trans hliteral.endAt?) (by simp)
    · exact Or.inr hbehind

/-! ## Pieces -/

/-- Where no literal begins, the first character is a piece of its own. -/
theorem pieces_drop_of_char {c : Char} (hnone : Literal.endAt? text place = none)
    (h : text[place]? = some c) :
    pieces true (text.drop place) = .char c :: pieces true (text.drop (place + 1)) := by
  obtain ⟨hplace, rfl⟩ := List.getElem?_eq_some_iff.mp h
  rw [Literal.endAt?_eq_none_iff, List.drop_eq_getElem_cons hplace] at hnone
  rw [List.drop_eq_getElem_cons hplace]
  exact pieces_of_char hnone

/-- A step of the scan is over one piece. -/
theorem pieces_of_step (h : ScanStep text start stop) :
    ∃ piece, pieces true (text.drop start) = piece :: pieces true (text.drop stop) ∧
      start + piece.chars.length = stop := by
  cases h with
  | literal hend =>
      obtain ⟨value, rest, hread, rfl⟩ := Literal.endAt?_eq_some_iff.mp hend
      refine ⟨.literal value, ?_, rfl⟩
      rw [Literal.drop_of_read? hread]
      exact pieces_of_literal ((Literal.cut?_true _).trans hread)
  | char hplace hnone =>
      exact ⟨_, pieces_drop_of_char hnone (List.getElem?_eq_getElem hplace), rfl⟩

/-- The pieces up to a place to which the scan comes spell the text up to there. -/
theorem Visited.pieces (h : Visited text place) :
    ∃ front, Text.pieces true text = front ++ Text.pieces true (text.drop place) ∧
      (front.flatMap Piece.chars).length = place := by
  induction h with
  | refl => exact ⟨[], rfl, rfl⟩
  | tail _ hstep ih =>
      obtain ⟨front, hfront, hlength⟩ := ih
      obtain ⟨piece, hpiece, hstop⟩ := pieces_of_step hstep
      refine ⟨front ++ [piece], ?_, ?_⟩
      · rw [hfront, hpiece, List.append_assoc, List.singleton_append]
      · rw [List.flatMap_append, List.length_append, hlength, List.flatMap_cons, List.flatMap_nil,
          List.append_nil, hstop]

end Text

end ClassDiagram
