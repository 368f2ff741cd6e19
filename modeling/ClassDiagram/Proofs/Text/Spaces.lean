import ClassDiagram.Proofs.TypeExpr.Tree
import ClassDiagram.Reader.BaseList
import ClassDiagram.Text.Line

/-!
# Texts whose only blanks are spaces

What is read of a source may run over several lines of it. A text whose only blanks are spaces
stands on one line, and so does every part of it. Collapsing makes such a text of any, and a name is
one.

* `SpacesOnly`: the texts, with `SpacesOnly.of_subset` for their parts.
* `strip_subset`, `subset_of_mem_splitTop` and others: cutting a text adds no character.
* `spacesOnly_collapse`, `spacesOnly_join`: where such texts come from.
-/

namespace ClassDiagram

namespace Text

variable {text part : Text} {c : Char}

/-! ## Parts -/

theorem stripStart_subset (text : Text) : stripStart text ⊆ text :=
  (List.dropWhile_sublist _).subset

theorem stripEnd_subset (text : Text) : stripEnd text ⊆ text := by
  intro c hc
  exact List.mem_reverse.mp ((List.dropWhile_sublist _).subset (List.mem_reverse.mp hc))

/-- Trimming adds no character. -/
theorem strip_subset (text : Text) : strip text ⊆ text :=
  List.Subset.trans (stripEnd_subset _) (stripStart_subset _)

/-- What stands behind a mark is part of the text. -/
theorem past_subset (mark : Char) (text : Text) : past mark text ⊆ text :=
  List.Subset.trans (List.drop_subset _ _) (List.dropWhile_sublist _).subset

/-- A simple name is part of the name. -/
theorem simpleName_subset (text : Text) : simpleName text ⊆ text := by
  intro c hc
  exact List.mem_reverse.mp ((List.takeWhile_sublist _).subset (List.mem_reverse.mp hc))

/-- What stands before an assignment is part of the text. -/
theorem beforeAssignment_subset (text : Text) : beforeAssignment text ⊆ text := by
  unfold beforeAssignment
  split
  · exact List.take_subset _ _
  · exact List.Subset.refl _

/-- What stands in brackets is part of the text. -/
theorem splitGroup_subset (text : Text) : (splitGroup text).1 ⊆ text := by
  unfold splitGroup
  split
  · exact List.Subset.trans (List.drop_subset _ _) (List.take_subset _ _)
  · exact List.drop_subset _ _

/-- A base without its arguments is part of the entry. -/
theorem baseAndArguments_subset (entry : Text) : (baseAndArguments entry).1 ⊆ entry := by
  unfold baseAndArguments
  split
  · exact simpleName_subset entry
  · exact List.Subset.trans (simpleName_subset _)
      (List.Subset.trans (strip_subset _) (List.take_subset _ _))

/-- What stands behind blanks is part of the text. -/
theorem afterBlanks?_subset {rest : Text} (h : afterBlanks? text = some rest) : rest ⊆ text := by
  cases text with
  | nil => cases h
  | cons first tail =>
      rw [afterBlanks?] at h
      split at h
      · cases h
        exact List.subset_cons_of_subset _ (stripStart_subset tail)
      · cases h

/-- After attaching, a segment holds what was attached and what was there. -/
theorem mem_of_mem_attach {front : Text} {segments : List Text} (h : part ∈ attach front segments)
    (hc : c ∈ part) : c ∈ front ∨ ∃ segment ∈ segments, c ∈ segment := by
  cases segments with
  | nil =>
      rw [List.mem_singleton.mp h] at hc
      exact Or.inl hc
  | cons first rest =>
      rcases List.mem_cons.mp h with rfl | h
      · exact (List.mem_append.mp hc).imp_right fun hc => ⟨first, List.mem_cons_self, hc⟩
      · exact Or.inr ⟨part, List.mem_cons_of_mem _ h, hc⟩

/-- The segments of a text hold no characters but its own. -/
theorem mem_of_mem_topSegments (separates : Char → Bool) (brackets : Brackets) (depth : Nat)
    (afterEquals : Bool) (pieces : List Piece) :
    ∀ part ∈ topSegments separates brackets depth afterEquals pieces, ∀ c ∈ part,
      c ∈ pieces.flatMap Piece.chars := by
  fun_induction topSegments separates brackets depth afterEquals pieces with
  | case1 =>
      intro part h c hc
      rw [List.mem_singleton.mp h] at hc
      exact hc
  | case2 depth _ value rest ih =>
      intro part h c hc
      rw [List.flatMap_cons]
      rcases mem_of_mem_attach h hc with hc | ⟨segment, hsegment, hc⟩
      · exact List.mem_append_left _ hc
      · exact List.mem_append_right _ (ih segment hsegment c hc)
  -- a separator outside of brackets is lost, and all other characters go to a segment
  | case3 depth _ d rest deeper behind _ ih =>
      intro part h c hc
      rw [List.flatMap_cons]
      rcases List.mem_cons.mp h with rfl | h
      · cases hc
      · exact List.mem_append_right _ (ih part h c hc)
  | case4 depth _ d rest deeper behind _ ih =>
      intro part h c hc
      rw [List.flatMap_cons]
      rcases mem_of_mem_attach h hc with hc | ⟨segment, hsegment, hc⟩
      · exact List.mem_append_left _ hc
      · exact List.mem_append_right _ (ih segment hsegment c hc)

/-- Attaching keeps what the last segment holds. -/
theorem attach_concat (front : Text) (init : List Text) (last : Text) :
    ∃ init' last', attach front (init ++ [last]) = init' ++ [last'] ∧ last ⊆ last' := by
  cases init with
  | nil => exact ⟨[], front ++ last, rfl, List.subset_append_right _ _⟩
  | cons first rest => exact ⟨(front ++ first) :: rest, last, rfl, List.Subset.refl _⟩

/-- Pieces without characters are one empty segment. -/
theorem topSegments_of_empty (separates : Char → Bool) (brackets : Brackets) (depth : Nat)
    (afterEquals : Bool) {pieces : List Piece} (h : pieces.flatMap Piece.chars = []) :
    topSegments separates brackets depth afterEquals pieces = [[]] := by
  have hroom := room_topSegments separates brackets depth afterEquals pieces
  rw [h] at hroom
  cases hsegments : topSegments separates brackets depth afterEquals pieces with
  | nil => exact absurd hsegments (topSegments_ne_nil _ _ _ _ _)
  | cons first rest =>
      rw [hsegments, room_cons] at hroom
      cases rest with
      | nil =>
          have hfirst : first.length = 0 := by simpa using hroom
          rw [List.eq_nil_of_length_eq_zero hfirst]
      | cons second more =>
          simp only [room_cons, List.length_nil] at hroom
          omega

/-- A character at the end that does not separate stands in the last segment. -/
theorem mem_last_topSegments (separates : Char → Bool) (brackets : Brackets) (depth : Nat)
    (afterEquals : Bool) {pieces : List Piece} {c : Char}
    (h : (pieces.flatMap Piece.chars).getLast? = some c) (hc : separates c = false) :
    ∃ init last, topSegments separates brackets depth afterEquals pieces = init ++ [last] ∧
      c ∈ last := by
  induction pieces generalizing depth afterEquals with
  | nil => cases h
  | cons piece rest ih =>
      rw [List.flatMap_cons] at h
      by_cases hrest : rest.flatMap Piece.chars = []
      · rw [hrest, List.append_nil] at h
        cases piece with
        | literal value =>
            rw [topSegments, topSegments_of_empty _ _ _ _ hrest]
            exact ⟨[], _, rfl, List.mem_append_left _ (List.mem_of_getLast? h)⟩
        | char d =>
            obtain rfl : d = c := Option.some.inj h
            rw [topSegments, if_neg (by simp [hc]), topSegments_of_empty _ _ _ _ hrest]
            exact ⟨[], _, rfl, List.mem_cons_self⟩
      · rw [List.getLast?_append_of_ne_nil _ hrest] at h
        -- the rest is cut behind whatever stands before it
        have hfront : ∀ front depth afterEquals, ∃ init last,
            attach front (topSegments separates brackets depth afterEquals rest) = init ++ [last] ∧
              c ∈ last := by
          intro front depth afterEquals
          obtain ⟨init, last, hsegments, hmem⟩ := ih depth afterEquals h
          obtain ⟨init', last', hattach, hsub⟩ := attach_concat front init last
          exact ⟨init', last', hsegments ▸ hattach, hsub hmem⟩
        cases piece with
        | literal value => exact hfront value.chars _ _
        | char d =>
            rw [topSegments]
            split
            · obtain ⟨init, last, hsegments, hmem⟩ := ih _ _ h
              exact ⟨[] :: init, last, congrArg ([] :: ·) hsegments, hmem⟩
            · exact hfront [d] _ _

/-- A part that is split off is part of the text. -/
theorem subset_of_mem_splitTop {separates : Char → Bool} {angles : Bool}
    (h : part ∈ splitTop text separates angles) : part ⊆ text := by
  intro c hc
  obtain ⟨segment, hsegment, rfl⟩ := List.mem_map.mp (List.mem_filter.mp h).1
  have := mem_of_mem_topSegments _ _ _ _ _ segment hsegment c (strip_subset segment hc)
  rwa [chars_pieces] at this

/-! ## Texts with spaces only -/

/-- Whether all blanks of a text are spaces. -/
def SpacesOnly (text : Text) : Prop := ∀ c ∈ text, isBlank c = true → c = ' '

instance : DecidablePred SpacesOnly := fun text =>
  decidable_of_iff (text.all (fun c => decide (isBlank c = true → c = ' ')) = true)
    (by simp only [SpacesOnly, List.all_eq_true, decide_eq_true_eq])

/-- A part of a text holds no other blanks than the text. -/
theorem SpacesOnly.of_subset (h : SpacesOnly text) (hsub : part ⊆ text) : SpacesOnly part :=
  fun c hc => h c (hsub hc)

theorem spacesOnly_of_filled (h : ∀ c ∈ text, isBlank c = false) : SpacesOnly text :=
  fun c hc hblank => absurd (h c hc) (by simp [hblank])

/-- Such a text stands on one line. -/
theorem SpacesOnly.not_lineBreak (h : SpacesOnly text) : ∀ c ∈ text, isLineBreak c = false := by
  intro c hc
  by_contra hbreak
  have hblank : isBlank c = true := by
    simp only [isLineBreak, Bool.not_eq_false, Bool.or_eq_true, Bool.and_eq_true,
      decide_eq_true_eq, beq_iff_eq] at hbreak
    simp only [isBlank, Bool.or_eq_true, Bool.and_eq_true, decide_eq_true_eq, beq_iff_eq]
    omega
  have hspace := h c hc hblank
  subst hspace
  exact hbreak (by decide)

/-- Joining with spaces adds no other blanks. -/
theorem spacesOnly_join {parts : List Text} (h : ∀ part ∈ parts, SpacesOnly part) :
    SpacesOnly (join [' '] parts) := by
  intro c hc hblank
  rcases mem_join hc with hc | ⟨part, hpart, hc⟩
  · exact List.mem_singleton.mp hc
  · exact h part hpart c hc hblank

/-- No segment holds a separator. -/
theorem not_of_mem_cut {separates : Char → Bool} (h : part ∈ cut separates text) (hc : c ∈ part) :
    separates c = false := by
  induction text generalizing part with
  | nil =>
      rw [List.mem_singleton.mp h] at hc
      cases hc
  | cons first rest ih =>
      rw [cut] at h
      split at h
      · rcases List.mem_cons.mp h with rfl | h
        · cases hc
        · exact ih h hc
      · rename_i hfirst
        rcases mem_of_mem_attach h hc with hc | ⟨segment, hsegment, hc⟩
        · rw [List.mem_singleton.mp hc]
          simpa using hfirst
        · exact ih hsegment hc

/-- A collapsed text has no blanks but spaces. -/
theorem spacesOnly_collapse (text : Text) : SpacesOnly (collapse text) :=
  spacesOnly_join fun _ hword => spacesOnly_of_filled fun _ hc =>
    not_of_mem_cut (List.mem_filter.mp hword).1 hc

/-- The first of the marks in a text is the first of them in its words, and the words before it are
the same. -/
theorem exists_collapse_append_mark {mark : Char} (hmark : isBlank mark = false)
    (before after : Text) :
    ∃ lead behind, collapse (before ++ mark :: after) = lead ++ mark :: behind ∧
      collapse lead = collapse before ∧ ∀ c ∈ lead, c = ' ' ∨ c ∈ before := by
  obtain ⟨init, last, first, others, hbefore, hafter, hwhole⟩ :=
    exists_cut_append isBlank before (mark :: after)
  obtain ⟨rest, rfl⟩ : ∃ rest, first = mark :: rest := by
    obtain ⟨segment, more, hcut⟩ := List.exists_cons_of_ne_nil (cut_ne_nil isBlank after)
    rw [cut, if_neg (by simp [hmark]), hcut] at hafter
    exact ⟨segment, (List.cons.inj hafter).1.symm⟩
  -- the mark's word begins in the last segment before it and ends in the first one behind it
  let front := init.filter fun word => !word.isEmpty
  have hwords : words (before ++ mark :: after) =
      front ++ (last ++ mark :: rest) :: others.filter fun word => !word.isEmpty := by
    rw [words, hwhole, List.filter_append, List.filter_cons_of_pos (by simp)]
  have hfront : ∀ word ∈ front, word ∈ cut isBlank before ∧ word ≠ [] := by
    intro word hword
    obtain ⟨hmem, hne⟩ := List.mem_filter.mp hword
    rw [hbefore]
    exact ⟨List.mem_append_left _ hmem, by simpa using hne⟩
  have hlast : last ∈ cut isBlank before := by
    rw [hbefore]
    exact List.mem_append_right _ List.mem_cons_self
  obtain ⟨behind, hbehind⟩ : ∃ behind, join [' '] ((last ++ mark :: rest) ::
      others.filter fun word => !word.isEmpty) = last ++ mark :: behind := by
    cases others.filter fun word => !word.isEmpty with
    | nil => exact ⟨rest, List.intercalate_singleton⟩
    | cons second more =>
        refine ⟨rest ++ ([' '] ++ join [' '] (second :: more)), ?_⟩
        rw [join, List.intercalate_cons_cons]
        simp [join]
  refine ⟨front.flatMap (· ++ [' ']) ++ last, behind, ?_, ?_, ?_⟩
  · rw [collapse, hwords, join_append_cons, hbehind, List.append_assoc]
  · have hfilled : ∀ word ∈ front, word ≠ [] ∧ ∀ c ∈ word, isBlank c = false := fun word hword =>
      ⟨(hfront word hword).2, fun c hc => not_of_mem_cut (hfront word hword).1 hc⟩
    have hone : words last = [last].filter fun word => !word.isEmpty := by
      rw [words, cut_of_none fun c hc => not_of_mem_cut hlast hc]
    rw [collapse, words_flatMap_append hfilled, hone, collapse]
    congr 1
    rw [words, hbefore, List.filter_append]
  · intro c hc
    rcases List.mem_append.mp hc with hc | hc
    · obtain ⟨word, hword, hc⟩ := List.mem_flatMap.mp hc
      rcases List.mem_append.mp hc with hc | hc
      · exact Or.inr (mem_of_mem_cut (hfront word hword).1 hc)
      · exact Or.inl (List.mem_singleton.mp hc)
    · exact Or.inr (mem_of_mem_cut hlast hc)

/-! ## Names -/

/-- A word character is no blank. -/
theorem not_blank_of_wordChar (h : isWordChar c = true) : isBlank c = false :=
  not_blank_of_nameChar (by simp [isDollarNameChar, h])

theorem not_blank_of_nameStart (h : isNameStart c = true) : isBlank c = false :=
  not_blank_of_identChar (isIdentChar_of_nameStart h)

/-- A name holds no blank. -/
theorem not_blank_of_isDollarName (h : isDollarName text = true) :
    ∀ c ∈ text, isBlank c = false := by
  cases text with
  | nil => cases h
  | cons first rest =>
      rw [isDollarName, Bool.and_eq_true, List.all_eq_true] at h
      intro c hc
      rcases List.mem_cons.mp hc with rfl | hc
      · exact not_blank_of_nameChar (nameChar_of_nameStart h.1)
      · exact not_blank_of_nameChar (h.2 c hc)

/-- What is read as a name is one, and what follows is part of the text. -/
theorem isDollarName_of_dollarName? {name rest : Text} (h : dollarName? text = some (name, rest)) :
    isDollarName name = true ∧ rest ⊆ text := by
  obtain ⟨first, tail, rfl, hfirst, rfl, rfl⟩ := nameBy?_eq_some_iff.mp h
  refine ⟨?_, List.subset_cons_of_subset _ (List.dropWhile_sublist _).subset⟩
  rw [isDollarName, hfirst, Bool.true_and]
  exact List.all_takeWhile

/-- What is read as a name holds no blank. -/
theorem not_blank_of_name? {name rest : Text} (h : name? text = some (name, rest)) :
    ∀ c ∈ name, isBlank c = false := by
  obtain ⟨first, tail, rfl, hfirst, rfl, -⟩ := nameBy?_eq_some_iff.mp h
  intro c hc
  rcases List.mem_cons.mp hc with rfl | hc
  · exact not_blank_of_nameStart hfirst
  · exact not_blank_of_wordChar (List.all_eq_true.mp List.all_takeWhile c hc)

end Text

end ClassDiagram
