import ClassDiagram.Proofs.Text.Mark

/-!
# Nested texts

A text without quotes has no literals, so that every character is a piece of its own, also those that
would mark a literal. Such a text is nested if its characters are level.

* `pieces_of_unquoted`, `pieces_append_cons`: the pieces of a text without quotes are its characters.
* `splitTop_append`, `splitTop_nested`: cutting a nested text at the separators outside of brackets.
* `closing?_nested`: where a group ends.
-/

namespace ClassDiagram

namespace Text

/-- A text without quotes. -/
def Unquoted (text : Text) : Prop := ∀ c ∈ text, Literal.isQuote c = false

/-- Without quotes, each character is a piece. -/
theorem pieces_of_unquoted {text : Text} (h : Unquoted text) (marked : Bool) :
    pieces marked text = text.map Piece.char := by
  induction text with
  | nil => rw [pieces_nil, List.map_nil]
  | cons c rest ih =>
      have hread : Literal.read? (c :: rest) = none := by
        unfold Literal.read?
        dsimp only
        split
        · rfl
        · rename_i quote tail hdrop
          -- a literal would begin with a quote behind its marks
          have hmem : quote ∈ c :: rest := List.mem_of_mem_drop (by rw [hdrop]; exact List.mem_cons_self)
          rw [if_neg (by simp [h quote hmem])]
      have hnone : Literal.cut? marked (c :: rest) = none := by
        rw [Literal.cut?, hread]
        split <;> rfl
      rw [pieces]
      split
      · rename_i hsome
        exact absurd (hnone.symm.trans hsome) (by simp)
      · exact congrArg (Piece.char c :: ·) (ih fun d hd => h d (List.mem_cons_of_mem _ hd))

/-- A literal that stands behind a text without quotes does not reach into it, if a character that
is neither quote nor mark stands between them. -/
theorem pieces_append_cons {text : Text} (h : Unquoted text) {c : Char}
    (hquote : Literal.isQuote c = false) (hmark : Literal.isMark c = false) (marked : Bool)
    (rest : Text) :
    pieces marked (text ++ c :: rest) = text.map Piece.char ++ .char c :: pieces marked rest := by
  induction text with
  | nil => exact pieces_cons hquote hmark marked rest
  | cons d tail ih =>
      obtain ⟨hd, htail⟩ := List.forall_mem_cons.mp h
      -- behind the marks at the front comes no quote, as the marks end before the character does
      have hread : Literal.read? (d :: (tail ++ c :: rest)) = none := by
        unfold Literal.read?
        cases tail with
        | nil =>
            by_cases hdm : Literal.isMark d = true <;>
              simp [hdm, hmark, hd, hquote]
        | cons e others =>
            have he := htail e List.mem_cons_self
            by_cases hdm : Literal.isMark d = true
            · by_cases hem : Literal.isMark e = true
              · cases others with
                | nil => simp [hdm, hem, hquote]
                | cons f _ =>
                    have hf := htail f (by simp)
                    simp [hdm, hem, hf]
              · simp [hdm, hem, he]
            · simp [hdm, hd]
      have hnone : Literal.cut? marked (d :: (tail ++ c :: rest)) = none := by
        rw [Literal.cut?, hread]
        split <;> rfl
      rw [List.cons_append, pieces]
      split
      · rename_i hsome
        exact absurd (hnone.symm.trans hsome) (by simp)
      · exact congrArg (Piece.char d :: ·) (ih htail)

/-- A text without quotes whose brackets pair up. All characters outside of brackets and the
outermost brackets themselves satisfy `top`. -/
structure Nested (top : Char → Prop) (text : Text) : Prop where
  unquoted : Unquoted text
  level : Level .all top (text.map Piece.char)

namespace Nested

variable {top : Char → Prop} {text other inner : Text}

/-- The characters outside of brackets may be taken from a wider class. -/
theorem mono {wider : Char → Prop} (h : Nested top text) (hsub : ∀ c, top c → wider c) :
    Nested wider text :=
  ⟨h.unquoted, h.level.mono hsub⟩

theorem inside (h : Nested top text) : Nested (fun _ => True) text := h.mono fun _ _ => trivial

theorem nil : Nested top [] := ⟨by simp [Unquoted], .nil⟩

/-- Nested texts stay nested side by side. -/
theorem append (h : Nested top text) (hother : Nested top other) : Nested top (text ++ other) where
  unquoted := fun c hc => (List.mem_append.mp hc).elim (h.unquoted c) (hother.unquoted c)
  level := by
    rw [List.map_append]
    exact h.level.append hother.level

/-- Characters that mean nothing by themselves open no bracket. -/
theorem of_inert (h : ∀ c ∈ text, Literal.isQuote c = false ∧ isInert c = true ∧ top c) :
    Nested top text :=
  ⟨fun c hc => (h c hc).1, .of_inert fun c hc => (h c hc).2⟩

theorem arrow (hequals : top '=') (hgreater : top '>') : Nested top ['=', '>'] :=
  ⟨forall_chars (by decide), .arrow hequals hgreater .nil⟩

/-- Brackets around a nested text are closed. -/
theorem group {opener closer : Char} (hpair : closer? opener = some closer) (hopen : top opener)
    (hclose : top closer) (h : Nested (fun _ => True) inner) :
    Nested top (opener :: (inner ++ [closer])) where
  unquoted := by
    intro c hc
    simp only [List.mem_cons, List.mem_append, List.not_mem_nil, or_false] at hc
    rcases hc with rfl | hc | rfl
    · exact (opener_facts hpair).1
    · exact h.unquoted c hc
    · exact (closer_facts hpair).1
  level := by
    rw [List.map_cons, List.map_append]
    exact .group hpair (opens_all hpair) hopen hclose h.level .nil

/-- Nested items with a nested separator are nested. -/
theorem join {items : List Text} {separator : Text} (hitems : ∀ item ∈ items, Nested top item)
    (hsep : Nested top separator) : Nested top (join separator items) :=
  join_induct (fun _ => .nil) hitems fun _ _ hitem hrest => hitem.append (hsep.append hrest)

end Nested

/-! ## Cutting -/

section Cutting

variable {separates : Char → Bool} {top : Char → Prop} {text before after : Text} {c : Char}

/-- A separator outside of brackets cuts level pieces in two. -/
theorem topSegments_append {brackets : Brackets} {pieces : List Piece}
    (h : Level brackets top pieces) (hinert : ∀ d, separates d = true → isInert d = true)
    (hc : separates c = true) (rest : List Piece) :
    topSegments separates brackets 0 false (pieces ++ .char c :: rest) =
      topSegments separates brackets 0 false pieces ++ topSegments separates brackets 0 false rest := by
  -- no bracket separates, since what separates means nothing by itself
  have hnot : ∀ {d : Char}, isInert d = false → separates d = false := by
    intro d hd
    by_contra hsep
    rw [hinert d (by simpa using hsep)] at hd
    exact Bool.false_ne_true hd.symm
  have hcut : ∀ {d : Char} (tail : List Piece), isInert d = true → separates d = true →
      topSegments separates brackets 0 false (.char d :: tail) =
        [] :: topSegments separates brackets 0 false tail := by
    intro d tail hd hsep
    rw [topSegments, depthAfter_of_inert hd, not_equals_of_inert hd, if_pos ⟨hsep, rfl⟩]
  induction h with
  | nil => exact hcut rest (hinert c hc) hc
  | literal _ ih =>
      rw [List.cons_append, topSegments, ih, topSegments,
        attach_append_right (topSegments_ne_nil _ _ _ _ _)]
  | @char _ d tail hd _ _ ih =>
      rw [List.cons_append]
      by_cases hsep : separates d = true
      · rw [hcut _ hd hsep, hcut _ hd hsep, ih, List.cons_append]
      · have hkeep : (0 : Nat) = 0 → separates d = false := fun _ => by simpa using hsep
        rw [topSegments_inert hd _ hkeep, topSegments_inert hd _ hkeep, ih,
          attach_append_right (topSegments_ne_nil _ _ _ _ _)]
  | arrow _ _ _ ih =>
      have hkeep : (0 : Nat) = 0 → separates '=' = false ∧ separates '>' = false :=
        fun _ => ⟨hnot (by decide), hnot (by decide)⟩
      rw [List.cons_append, List.cons_append, topSegments_arrow _ hkeep, topSegments_arrow _ hkeep,
        ih, attach_append_right (topSegments_ne_nil _ _ _ _ _)]
  | @group _ opener closer inner tail hpair hopen _ _ hinner _ _ ih =>
      have hcloser : (0 : Nat) = 0 → separates closer = false := by
        intro _
        rcases pair_cases hpair with ⟨-, rfl⟩ | ⟨-, rfl⟩ | ⟨-, rfl⟩ | ⟨-, rfl⟩ <;>
          exact hnot (by decide)
      have hpass : ∀ behind, topSegments separates brackets 1 false (inner ++ behind) =
          attach (inner.flatMap Piece.chars) (topSegments separates brackets 1 false behind) :=
        topSegments_level hinner fun h => absurd h Nat.one_ne_zero
      obtain ⟨hdo, hdc⟩ := depthAfter_opens hpair hopen 0
      have hgroup := topSegments_group 1 hpair hdo hdc (fun h => absurd h Nat.one_ne_zero) hcloser
        hpass
      rw [List.cons_append, List.append_assoc, List.cons_append, hgroup, hgroup, ih,
        attach_append_right (topSegments_ne_nil _ _ _ _ _)]

/-- A separator outside of brackets cuts a nested text in two. -/
theorem splitTop_append (h : Nested top before) (hafter : Unquoted after)
    (hinert : ∀ d, separates d = true → isInert d = true) (hc : separates c = true)
    (hquote : Literal.isQuote c = false) :
    splitTop (before ++ c :: after) separates =
      splitTop before separates ++ splitTop after separates := by
  have hall : Unquoted (before ++ c :: after) := by
    intro d hd
    rcases List.mem_append.mp hd with hd | hd
    · exact h.unquoted d hd
    · rcases List.mem_cons.mp hd with rfl | hd
      · exact hquote
      · exact hafter d hd
  unfold splitTop
  rw [pieces_of_unquoted hall, pieces_of_unquoted h.unquoted, pieces_of_unquoted hafter,
    List.map_append, List.map_cons, ← List.filter_append, ← List.map_append]
  congr 2
  exact topSegments_append h.level hinert hc _

/-- A space at the front is lost. -/
theorem splitTop_space_cons (h : Unquoted text) (hsep : separates ' ' = false) :
    splitTop (' ' :: text) separates = splitTop text separates := by
  have hall : Unquoted (' ' :: text) := List.forall_mem_cons.mpr ⟨by decide, h⟩
  unfold splitTop
  rw [pieces_of_unquoted hall, pieces_of_unquoted h, List.map_cons,
    topSegments_inert (by decide) _ (fun _ => hsep)]
  cases hsegments : topSegments separates ⟨true, true⟩ 0 false (text.map Piece.char) with
  | nil => exact absurd hsegments (topSegments_ne_nil _ _ _ _ _)
  | cons first rest => rfl

/-- A nested text without separators outside of brackets is one part, without the blanks around
it. -/
theorem splitTop_nested (h : Nested top before) (hsep : ∀ d, top d → separates d = false)
    (htidy : Tidy text) (hstrip : strip before = text) : splitTop before separates = [text] := by
  have hone : topSegments separates .all 0 false (before.map Piece.char ++ []) = [before] := by
    rw [topSegments_level h.level (fun _ => hsep), flatMap_chars_map]
    simp [topSegments, attach]
  rw [List.append_nil] at hone
  unfold splitTop
  rw [pieces_of_unquoted h.unquoted]
  show ((topSegments separates .all 0 false (before.map Piece.char)).map strip).filter _ = [text]
  rw [hone, List.map_singleton, hstrip]
  simp [htidy.ne_nil]

/-- A list written with commas is cut at them, if no entry has one outside of its brackets. -/
theorem splitTop_listed {items : List Text}
    (hitems : ∀ item ∈ items, Nested (· ≠ ',') item ∧ Tidy item) :
    splitTop (join [',', ' '] items) = items := by
  have hone : ∀ item ∈ items, splitTop item = [item] := fun item hitem =>
    splitTop_nested (hitems item hitem).1 (fun _ hd => beq_eq_false_iff_ne.mpr hd)
      (hitems item hitem).2 (hitems item hitem).2.strip
  have hsep : Nested (fun _ => True) [',', ' '] := .of_inert (forall_chars (by decide))
  have hinert : ∀ d, (d == ',') = true → isInert d = true := by
    intro d hd
    rw [eq_of_beq hd]
    decide
  induction items with
  | nil =>
      show splitTop [] = []
      rw [splitTop, pieces_nil]
      rfl
  | cons first rest ih =>
      cases rest with
      | nil =>
          rw [join, List.intercalate_singleton]
          exact hone first List.mem_cons_self
      | cons second others =>
          have hlater := fun item hitem => hitems item (List.mem_cons_of_mem first hitem)
          have hrest : Unquoted (join [',', ' '] (second :: others)) :=
            (Nested.join (fun item hitem => (hlater item hitem).1.inside) hsep).unquoted
          -- the space behind the comma is trimmed off with the item
          have hbehind : Unquoted (' ' :: join [',', ' '] (second :: others)) :=
            List.forall_mem_cons.mpr ⟨by decide, hrest⟩
          have htext : join [',', ' '] (first :: second :: others) =
              first ++ ',' :: ' ' :: join [',', ' '] (second :: others) := by
            rw [join, List.intercalate_cons_cons, List.append_assoc]
            rfl
          rw [htext, splitTop_append (hitems first List.mem_cons_self).1 hbehind hinert rfl
              (by decide), splitTop_space_cons hrest rfl, hone first List.mem_cons_self,
            ih hlater fun item hitem => hone item (List.mem_cons_of_mem _ hitem)]
          rfl

end Cutting

/-! ## Groups -/

section Groups

variable {top : Char → Prop} {text inner rest : Text}

/-- A group ends where its nested contents end. -/
theorem closing?_nested (h : Nested top inner) {opener closer : Char}
    (hpair : closer? opener = some closer) (hrest : Unquoted rest) :
    closing? (opener :: (inner ++ closer :: rest)) = some (inner.length + 1) := by
  have hall : Unquoted (opener :: (inner ++ closer :: rest)) := by
    intro d hd
    simp only [List.mem_cons, List.mem_append] at hd
    rcases hd with rfl | hd | rfl | hd
    · exact (opener_facts hpair).1
    · exact h.unquoted d hd
    · exact (closer_facts hpair).1
    · exact hrest d hd
  have hclosing := closingFrom?_group (.level h.level) hpair (rest.map Piece.char)
  rw [flatMap_chars_map] at hclosing
  rw [closing?, hpair]
  show closingFrom? opener closer 0 false 0 (pieces true (opener :: (inner ++ closer :: rest))) = _
  rw [pieces_of_unquoted hall, List.map_cons, List.map_append, List.map_cons, hclosing]

end Groups

end Text

end ClassDiagram
