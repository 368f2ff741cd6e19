import ClassDiagram.Proofs.Scan.Reached

/-!
# Texts without comments

Removing comments keeps every line break, and what is left holds no comment: a second removal finds
nothing. A comment that goes brings its neighbours together, but they never make a comment, as a
slash that is kept has no comment behind it, and at most they hand a literal another mark. Without a
mark `@` this changes neither where the literal ends nor what stands in it.

* `count_stripComments`: the line breaks of a text all stay.
* `stripComments_cons`: what a character that is kept does to the text behind it.
* `stripComments_chars_append`: a literal is kept as it is, whatever becomes of the text behind it.
* `stripComments_settles`: the line breaks stay, and nothing is left to remove.
-/

namespace ClassDiagram

namespace Literal

/-- A mark other than `@` changes nothing of the literal that it stands before. -/
theorem read?_of_marked {c : Char} (hquote : isQuote c = false) (hat : c ≠ '@')
    {rest tail : Text} {value : Literal} (h : read? (c :: rest) = some (value, tail)) :
    ∃ marks, value.marks = c :: marks ∧
      read? rest = some (⟨marks, value.quote, value.body⟩, tail) := by
  obtain ⟨hopens, htext, hsplit⟩ := read?_eq_some_iff.mp h
  obtain ⟨marks, quote, body⟩ := value
  cases marks with
  | nil =>
      obtain ⟨rfl, -⟩ := List.cons.inj htext
      exact absurd hopens.isQuote (by simp [hquote])
  | cons mark marks =>
      obtain ⟨rfl, hrest⟩ := List.cons.inj htext
      refine ⟨marks, rfl, read?_eq_some_iff.mpr ⟨⟨?_, ?_, hopens.isQuote, ?_⟩, hrest, ?_⟩⟩
      · exact Nat.le_of_succ_le hopens.length_marks
      · exact fun d hd => hopens.marks_marks d (List.mem_cons_of_mem _ hd)
      · exact Or.inr (hopens.unmarked_or.resolve_left (by simp))
      · simpa [splitBody, hat.symm] using hsplit

end Literal

namespace Text

/-! ## Line breaks -/

/-- A block comment and what follows it make up the text. -/
theorem blockComment_append (text : Text) :
    (blockComment text).1 ++ (blockComment text).2 = text := by
  fun_induction blockComment text <;> simp_all

/-- What stands before the first line break holds none. -/
theorem count_dropWhile_break (text : Text) :
    (text.dropWhile (· != '\n')).count '\n' = text.count '\n' := by
  have hbefore : (text.takeWhile (· != '\n')).count '\n' = 0 := by
    refine List.count_eq_zero.mpr fun hmem => ?_
    exact absurd (List.all_eq_true.mp List.all_takeWhile _ hmem) (by simp)
  conv => rhs; rw [← List.takeWhile_append_dropWhile (p := (· != '\n')) (l := text)]
  rw [List.count_append, hbefore, Nat.zero_add]

/-- Removing comments keeps all line breaks. -/
theorem count_stripComments (text : Text) : (stripComments text).count '\n' = text.count '\n' := by
  fun_induction stripComments text with
  | case1 text value rest hcut _ ih =>
      rw [Literal.eq_chars_append_of_cut? hcut, List.count_append, List.count_append, ih]
  | case2 => rfl
  | case3 rest _ ih => rw [ih, count_dropWhile_break, List.count_cons, List.count_cons]; rfl
  | case4 rest _ ih =>
      rw [List.count_append, ih, List.count_filter (by decide), ← List.count_append,
        blockComment_append, List.count_cons, List.count_cons]
      rfl
  | case5 c rest _ _ _ ih => rw [List.count_cons, List.count_cons, ih]

/-! ## What is kept -/

theorem stripComments_nil : stripComments [] = [] := by
  rw [stripComments]
  rfl

/-- Only a slash begins a comment, so that any other first character stays the first one. -/
theorem head?_stripComments {text : Text} (h : text.head? ≠ some '/') :
    (stripComments text).head? = text.head? := by
  cases hcut : Literal.cut? true text with
  | some found =>
      obtain ⟨value, rest⟩ := found
      have hne : value.chars ≠ [] := by simp [Literal.chars]
      rw [stripComments_of_literal hcut, Literal.eq_chars_append_of_cut? hcut,
        List.head?_append_of_ne_nil _ hne, List.head?_append_of_ne_nil _ hne]
  | none =>
      cases text with
      | nil => rw [stripComments_nil]
      | cons c rest =>
          rw [stripComments_of_char hcut fun hc => absurd (congrArg some hc) h]
          rfl

/-- A character that begins neither a comment nor a verbatim literal is kept, and what stands behind
it is stripped as if it were alone. -/
theorem stripComments_cons {c : Char} {rest : Text} (hquote : Literal.isQuote c = false)
    (hat : c ≠ '@') (hcomment : c = '/' → ∀ d ∈ rest.head?, d ≠ '/' ∧ d ≠ '*') :
    stripComments (c :: rest) = c :: stripComments rest := by
  cases hread : Literal.read? (c :: rest) with
  | none => exact stripComments_of_char hread hcomment
  | some found =>
      -- the character is a mark of a literal, which is kept with the mark or without it
      obtain ⟨value, tail⟩ := found
      obtain ⟨marks, hmarks, hrest⟩ := Literal.read?_of_marked hquote hat hread
      rw [stripComments_of_literal ((Literal.cut?_true _).trans hread),
        stripComments_of_literal ((Literal.cut?_true rest).trans hrest), Literal.chars, hmarks]
      rfl

theorem stripComments_breaks_append {breaks : Text} (h : ∀ c ∈ breaks, c = '\n') (rest : Text) :
    stripComments (breaks ++ rest) = breaks ++ stripComments rest := by
  induction breaks with
  | nil => rfl
  | cons c breaks ih =>
      obtain rfl := h c List.mem_cons_self
      rw [List.cons_append, stripComments_cons (by decide) (by decide) (by simp),
        ih fun d hd => h d (List.mem_cons_of_mem _ hd)]
      rfl

/-- A literal that is not verbatim is kept before the stripped text as it was before the text. -/
theorem stripComments_chars_append {text rest : Text} {value : Literal}
    (h : Literal.read? text = some (value, rest)) (hat : '@' ∉ value.marks) :
    stripComments (value.chars ++ stripComments rest) =
      value.chars ++ stripComments (stripComments rest) := by
  suffices hread : Literal.read? (value.chars ++ stripComments rest) =
      some (value, stripComments rest) from
    stripComments_of_literal ((Literal.cut?_true _).trans hread)
  obtain ⟨hopens, htext, hsplit⟩ := Literal.read?_eq_some_iff.mp h
  rw [Literal.splitBody, if_neg hat] at hsplit
  rcases Literal.escapedBody_end (Literal.ne_backslash_of_quote hopens.isQuote) hsplit with
    rfl | ⟨-, later, rfl⟩ | ⟨-, hclosed⟩
  · rw [stripComments_nil, ← htext]
    exact h
  · rw [stripComments_cons (by decide) (by decide) (by simp)]
    exact Literal.read?_ends h _
  · refine Literal.read?_eq_some_iff.mpr ⟨hopens, rfl, ?_⟩
    rw [Literal.splitBody, if_neg hat, hclosed]

/-- Without a mark `@`, nothing is left to remove. -/
theorem stripComments_stripComments {text : Text} (h : '@' ∉ text) :
    stripComments (stripComments text) = stripComments text := by
  fun_induction stripComments text with
  | case1 text value rest hcut _ ih =>
      rw [Literal.eq_chars_append_of_cut? hcut, List.mem_append, not_or] at h
      have hmarks : '@' ∉ value.marks := fun hmem => h.1 (List.mem_append_left _ hmem)
      rw [stripComments_chars_append ((Literal.cut?_true _).symm.trans hcut) hmarks, ih h.2]
  | case2 => exact stripComments_nil
  | case3 rest _ ih =>
      exact ih fun hmem => h (by simp [(List.dropWhile_sublist _).subset hmem])
  | case4 rest _ ih =>
      have hrest : '@' ∉ (blockComment rest).2 := by
        intro hmem
        rw [← blockComment_append rest] at h
        exact h (by simp [hmem])
      rw [stripComments_breaks_append (by simp), ih hrest]
  | case5 c rest hline hblock hcut ih =>
      rw [Option.attach_eq_none_iff, Literal.cut?_true] at hcut
      have hquote : Literal.isQuote c = false := by
        by_contra hquote
        have hopens : Literal.Opens [] c := ⟨by simp, by simp, by simpa using hquote, Or.inl rfl⟩
        exact absurd (hcut.symm.trans (hopens.read? rest)) (by simp)
      have hat : c ≠ '@' := fun hc => h (hc ▸ List.mem_cons_self)
      have hlater := ih fun hmem => h (List.mem_cons_of_mem _ hmem)
      rw [stripComments_cons hquote hat, hlater]
      -- the character behind a slash that is kept begins no comment, so that it is kept as well
      rintro rfl d hd
      cases rest with
      | nil => exact absurd hd (by simp [stripComments_nil])
      | cons e rest =>
          have hslash : e ≠ '/' := fun he => hline rest rfl (by rw [he])
          rw [head?_stripComments (by simpa using hslash)] at hd
          obtain rfl := Option.some.inj hd
          exact ⟨hslash, fun he => hblock rest rfl (by rw [he])⟩

/-- Removing comments keeps the line breaks of every text, and of a text without a mark `@` it
leaves nothing to remove. -/
theorem stripComments_settles (text : Text) :
    (stripComments text).count '\n' = text.count '\n' ∧
      ('@' ∉ text → stripComments (stripComments text) = stripComments text) :=
  ⟨count_stripComments text, stripComments_stripComments⟩

/-- Comments between a mark and its literal, over a line break, and up to the end. -/
def partedMark : Text := "$/* */\"a//b\" / /*\n*/$// c".toList

theorem stripComments_settles_partedMark :
    ('@' ∉ partedMark ∧ partedMark.count '\n' = 1) ∧
      (stripComments partedMark).count '\n' = 1 ∧
      stripComments (stripComments partedMark) = stripComments partedMark :=
  ⟨by decide, (stripComments_settles partedMark).1.trans (by decide),
    (stripComments_settles partedMark).2 (by decide)⟩

/-- A comment between a mark `@` and a quote is all that keeps the literal from being verbatim:
without it, the literal ends at a backslash with a quote, and a comment behind that comes to
light. -/
example :
    stripComments "@/**/\"\\\" //c".toList = "@\"\\\" //c".toList ∧
      stripComments "@\"\\\" //c".toList = "@\"\\\" ".toList := by
  decide +kernel

end Text

end ClassDiagram
