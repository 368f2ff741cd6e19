import ClassDiagram.Proofs.Model.Run
import ClassDiagram.Proofs.Reading.Directives
import ClassDiagram.Proofs.Scan.Reached

/-!
# What literals hold

Literals are masked before a source is searched, so that what they hold does not count. This is true
of every literal of TypeScript that is met as such. In C# the lines of directives are emptied first,
and that pass knows no literals: a line of a verbatim literal that looks like a directive is emptied
as well, and if it is the last one, the closing quote goes with it and the literal takes in all that
follows.

* `TypeScript.content_quoted`: the text that is searched, around a literal.
* `TypeScript.applyAll_quoted`: the contents of a literal do not count.
* `CSharp.content_verbatim`: the text that is searched, around a verbatim literal.
* `CSharp.ofContributions_verbatim`: only the lines that look like directives count.
-/

namespace ClassDiagram

/-! ## TypeScript -/

namespace TypeScript

open Text

/-- Around a literal that is met as such, a source is searched as if it held nothing but spaces. -/
theorem content_quoted {quote : Char} (hquote : Literal.isQuote quote = true)
    {before after inner : Text} (hbefore : CommentFree before) (hafter : CommentFree after)
    (hinner : ∀ c ∈ inner, c ≠ quote ∧ c ≠ '\\' ∧ c ≠ '\n') {front : List Piece}
    (hfront : pieces true (before ++ quote :: (inner ++ quote :: after)) =
      front ++ pieces true (quote :: (inner ++ quote :: after)))
    (hspell : front.flatMap Piece.chars = before) :
    content (before ++ quote :: (inner ++ quote :: after)) =
      front.flatMap Piece.mask ++ quote :: (hide inner ++ quote :: mask after) := by
  have hcut : Literal.cut? true (quote :: (inner ++ quote :: after)) =
      some (⟨[], quote, inner ++ [quote]⟩, after) := by
    have hopens : Literal.Opens [] quote := ⟨by simp, by simp, hquote, Or.inl rfl⟩
    have hsplit : Literal.splitBody [] quote (inner ++ quote :: after) =
        (inner ++ [quote], after) := by
      rw [Literal.splitBody, if_neg (by simp)]
      exact escapedBody_append_quote (ne_of_class hquote (by decide)) hinner after
    rw [Literal.cut?_true, ← List.nil_append (quote :: _), hopens.read?, hsplit]
  -- the quote is no sign of a comment, so that none goes on into the literal
  have hhead : ∀ c ∈ (quote :: (inner ++ quote :: after)).head?, c ≠ '/' ∧ c ≠ '*' := by
    rintro c hc
    cases hc
    exact ⟨ne_of_class hquote (by decide), ne_of_class hquote (by decide)⟩
  have hstrip : stripComments (before ++ quote :: (inner ++ quote :: after)) =
      before ++ quote :: (inner ++ quote :: after) := by
    rw [stripComments_append hfront hspell hbefore hhead, stripComments_of_literal hcut,
      stripComments_of_free hafter]
    simp [Literal.chars]
  have hmask : mask (quote :: (inner ++ quote :: after)) =
      quote :: (hide inner ++ quote :: mask after) := by
    rw [mask, pieces_of_literal hcut, List.flatMap_cons, ← mask, Piece.mask, maskLiteral_closed]
    simp
  rw [content, hstrip, mask_append hfront, hmask]

/-- The contents of a literal do not count, whatever stands around it: a source with other contents
of the same length leads from each model to the same model. -/
theorem applyAll_quoted {quote : Char} (hquote : Literal.isQuote quote = true)
    {before after inner other : Text} (hbefore : CommentFree before) (hafter : CommentFree after)
    (hinner : ∀ c ∈ inner, c ≠ quote ∧ c ≠ '\\' ∧ c ≠ '\n')
    (hother : ∀ c ∈ other, c ≠ quote ∧ c ≠ '\\' ∧ c ≠ '\n') (hlength : inner.length = other.length)
    (hreached : Reached (before ++ quote :: (inner ++ quote :: after)) before.length)
    (model : Model) :
    model.applyAll (Contribution.findings
        ⟨.typeScript, { text := before ++ quote :: (inner ++ quote :: after) }⟩) =
      model.applyAll (Contribution.findings
        ⟨.typeScript, { text := before ++ quote :: (other ++ quote :: after) }⟩) := by
  obtain ⟨front, back, hpieces, hspell⟩ := hreached.exists_pieces
  have hfront := pieces_of_reached (Literal.not_mark_of_quote hquote) hpieces hspell
  have hhide : hide inner = hide other :=
    (sameShape_of_unbroken hlength (fun hmem => (hinner _ hmem).2.2 rfl)
      fun hmem => (hother _ hmem).2.2 rfl).hide_eq
  have hcontent : content (before ++ quote :: (inner ++ quote :: after)) =
      content (before ++ quote :: (other ++ quote :: after)) := by
    rw [content_quoted hquote hbefore hafter hinner (hfront _) hspell,
      content_quoted hquote hbefore hafter hother (hfront _) hspell, hhide]
  simp only [Contribution.findings, Source.read, facts, hcontent]

/-- A class up to a literal, behind a literal with another quote and one cut off by its line. -/
def shopFront : Text := "class Shop \x7b a = \"it's\"; b = 'open\n; c = ".toList

/-- Contents that look like a declaration, a comment and another literal. -/
def shopLabel : Text := "class A \x7b x: B \x7d // '".toList

/-- The rest of the class. -/
def shopBack : Text := "; d: Till \x7d".toList

/-- The class with a template for its label. -/
def shop (label : Text) : Text := shopFront ++ '\x60' :: (label ++ '\x60' :: shopBack)

theorem applyAll_quoted_shop :
    Reached (shop shopLabel) shopFront.length ∧
      ∀ model : Model,
        model.applyAll (Contribution.findings ⟨.typeScript, { text := shop shopLabel }⟩) =
          model.applyAll (Contribution.findings ⟨.typeScript, { text := shop (hide shopLabel) }⟩) := by
  have hreached : Reached (shop shopLabel) shopFront.length :=
    ⟨(pieces true (shop shopLabel)).take 32, (pieces true (shop shopLabel)).drop 32,
      (List.take_append_drop 32 _).symm, by decide +kernel⟩
  exact ⟨hreached, applyAll_quoted (by decide) (by decide +kernel) (by decide +kernel)
    (forall_chars (by decide +kernel)) (forall_chars (by decide +kernel)) (by decide +kernel)
    hreached⟩

end TypeScript

/-! ## C# -/

namespace CSharp

open Text

/-- A character that begins neither a literal nor a comment nor a directive. -/
def isClear (c : Char) : Bool := isPlain c && c != '#'

/-- The model of a single source. -/
def modelOf (text : Text) : Model := Model.ofSources .cSharp [{ text := text }]

theorem plain_of_clear {c : Char} (h : isClear c = true) : isPlain c = true :=
  (Bool.and_eq_true_iff.mp h).1

section Verbatim

variable {before after inner : Text}

/-- A verbatim literal is opened by its mark and a quote. -/
theorem cut?_verbatim (rest : Text) :
    Literal.cut? true ('@' :: '"' :: rest) =
      some (⟨['@'], '"', (Literal.verbatimBody rest).1⟩, (Literal.verbatimBody rest).2) := by
  have hopens : Literal.Opens ['@'] '"' :=
    ⟨by decide, forall_chars (by decide), by decide, Or.inr rfl⟩
  rw [Literal.cut?_true]
  exact hopens.read? rest

/-- A verbatim literal behind a plain text is masked up to its end. -/
theorem mask_verbatim (hbefore : ∀ c ∈ before, isPlain c = true) (rest : Text) :
    mask (before ++ '@' :: '"' :: rest) =
      before ++ Piece.maskLiteral ⟨['@'], '"', (Literal.verbatimBody rest).1⟩ ++
        mask (Literal.verbatimBody rest).2 := by
  rw [mask_append (pieces_plain_append hbefore true _), flatMap_mask_map, mask,
    pieces_of_literal (cut?_verbatim rest), List.flatMap_cons, ← mask, List.append_assoc]
  rfl

/-- A verbatim literal without quotes is closed by the first one. -/
theorem verbatimBody_closed (hafter : ∀ c ∈ after, isPlain c = true) (hinner : '"' ∉ inner) :
    Literal.verbatimBody (inner ++ '"' :: after) = (inner ++ ['"'], after) := by
  refine Literal.verbatimBody_append_quote hinner fun hhead => ?_
  exact absurd (hafter _ (List.mem_of_mem_head? hhead)) (by decide)

theorem stripComments_verbatim (hbefore : ∀ c ∈ before, isPlain c = true)
    (hafter : ∀ c ∈ after, isPlain c = true) (hinner : '"' ∉ inner) :
    stripComments (before ++ '@' :: '"' :: (inner ++ '"' :: after)) =
      before ++ '@' :: '"' :: (inner ++ '"' :: after) := by
  have hspell : (before.map Piece.char).flatMap Piece.chars = before := by
    rw [← pieces_of_plain hbefore true, chars_pieces]
  rw [stripComments_append (pieces_plain_append hbefore true _) hspell
      (commentFree_of_plain hbefore) (by simp),
    stripComments_of_literal (cut?_verbatim _), verbatimBody_closed hafter hinner,
    stripComments_of_plain hafter]
  simp [Literal.chars]

/-- Around a verbatim literal, a source is searched as if it held nothing but spaces, and no lines
that look like directives. If its last line does so, all that follows counts as its contents. -/
theorem content_verbatim (hbefore : ∀ c ∈ before, isClear c = true)
    (hafter : ∀ c ∈ after, isClear c = true) (hinner : '"' ∉ inner) :
    content (before ++ '@' :: '"' :: (inner ++ '"' :: after)) =
      before ++ '@' :: '"' :: (hide (clearInner inner) ++
        if endsInDirective (innerLines inner) = true then hide (after.dropWhile (· != '\n'))
        else '"' :: after) := by
  have hplain := fun c hc => plain_of_clear (hbefore c hc)
  have hplain' := fun c hc => plain_of_clear (hafter c hc)
  have hmark : '#' ∉ before ++ ['@'] := by
    intro hmem
    rcases List.mem_append.mp hmem with hmem | hmem
    · exact absurd (hbefore _ hmem) (by decide)
    · exact absurd hmem (by decide)
  have hkept : '"' ∉ clearInner inner := fun hmem => hinner (mem_of_mem_clearInner (by decide) hmem)
  have hdrop := dropDirectives_enclosed (c := '"') (by decide) (by decide) hmark
    (fun hmem => absurd (hafter _ hmem) (by decide)) inner
  simp only [List.append_assoc, List.singleton_append] at hdrop
  rw [content, stripComments_verbatim hplain hplain' hinner, hdrop, mask_verbatim hplain]
  split
  -- the closing quote went with the directive's line, so that the literal does not end
  · have hopen : '"' ∉ clearInner inner ++ after.dropWhile (· != '\n') := by
      intro hmem
      rcases List.mem_append.mp hmem with hmem | hmem
      · exact hkept hmem
      · exact absurd (hafter _ (List.dropWhile_subset _ hmem)) (by decide)
    rw [Literal.verbatimBody_of_not_mem hopen,
      maskLiteral_open _ fun hlast => hopen (List.mem_of_getLast? hlast)]
    simp [hide, mask]
  · rw [verbatimBody_closed hplain' hkept, maskLiteral_closed, mask_of_plain hplain']
    simp

end Verbatim

/-- Texts that are searched alike have the same model. -/
theorem modelOf_congr {text other : Text} (h : content text = content other) :
    modelOf text = modelOf other := by
  have hfindings : Contribution.findings ⟨.cSharp, { text := text }⟩ =
      Contribution.findings ⟨.cSharp, { text := other }⟩ := by
    simp only [Contribution.findings, Source.read, facts, h]
  simp only [modelOf, Model.ofSources, Model.ofContributions, List.map_singleton, List.foldl_cons,
    List.foldl_nil, hfindings]

/-- Of the contents of a verbatim literal, no more counts than which of its lines look like
directives. If the last one does so, what stands behind the literal does not count either. -/
theorem ofContributions_verbatim {before after inner : Text}
    (hbefore : ∀ c ∈ before, isClear c = true) (hafter : ∀ c ∈ after, isClear c = true)
    (hinner : '"' ∉ inner) :
    (∀ other, '"' ∉ other → SameShape inner other →
        (innerLines inner).map isDirective = (innerLines other).map isDirective →
          modelOf (before ++ '@' :: '"' :: (inner ++ '"' :: after)) =
            modelOf (before ++ '@' :: '"' :: (other ++ '"' :: after))) ∧
      (endsInDirective (innerLines inner) = true →
        ∀ beyond, (∀ c ∈ beyond, isClear c = true) → SameShape after beyond →
          modelOf (before ++ '@' :: '"' :: (inner ++ '"' :: after)) =
            modelOf (before ++ '@' :: '"' :: (inner ++ '"' :: beyond))) := by
  constructor
  · intro other hother hshape hlines
    have hends : endsInDirective (innerLines inner) = endsInDirective (innerLines other) := by
      rw [endsInDirective_eq, hlines, ← endsInDirective_eq]
    refine modelOf_congr ?_
    rw [content_verbatim hbefore hafter hinner, content_verbatim hbefore hafter hother,
      hide_clearInner hshape.hide_eq hlines, hends]
  · intro hends beyond hbeyond hshape
    refine modelOf_congr ?_
    rw [content_verbatim hbefore hafter hinner, content_verbatim hbefore hbeyond hinner,
      if_pos hends, if_pos hends, hide_dropWhile, hshape.hide_eq, ← hide_dropWhile]

/-- A class up to a verbatim literal. -/
def depotFront : Text := "class Depot \x7b\n  string note = ".toList

/-- The rest of the class, and another one. -/
def depotBack : Text := ";\n  int size;\n\x7d\nclass Yard \x7b int area; \x7d\n".toList

/-- The class with a note, and the other one. -/
def depot (note back : Text) : Text := depotFront ++ '@' :: '"' :: (note ++ '"' :: back)

/-- A note with a directive between other lines, none of them what it looks like. -/
def depotNote : Text := "a\n #if b\n\x7d // ' class C \x7b".toList

/-- A note of the same shape, with the directive on the same line. -/
def otherNote : Text := "c\n\t# \x7b\x7d;\n/* interface DD;".toList

theorem ofContributions_verbatim_depot :
    modelOf (depot depotNote depotBack) = modelOf (depot otherNote depotBack) ∧
      modelOf (depot "\n#".toList depotBack) = modelOf (depot "\n#".toList (hide depotBack)) :=
  have hfront : ∀ c ∈ depotFront, isClear c = true := forall_chars (by decide +kernel)
  have hback : ∀ c ∈ depotBack, isClear c = true := forall_chars (by decide +kernel)
  ⟨(ofContributions_verbatim hfront hback (by decide +kernel)).1 _ (by decide +kernel)
      (by decide +kernel) (by decide +kernel),
    (ofContributions_verbatim hfront hback (by decide +kernel)).2 (by decide +kernel) _
      (forall_chars (by decide +kernel)) (by decide +kernel)⟩

/-- A line that looks like a directive in one of two literals of the same shape: without the closing
quote, a field and a class are lost. -/
theorem verbatim_directive_depot :
    (∀ c ∈ depotFront ++ depotBack, isClear c = true) ∧
      '"' ∉ "\n#".toList ∧ '"' ∉ "\nx".toList ∧ SameShape "\n#".toList "\nx".toList ∧
      (modelOf (depot "\n#".toList depotBack)).names = ["Depot"] ∧
      (modelOf (depot "\nx".toList depotBack)).names = ["Depot", "Yard"] :=
  ⟨forall_chars (by decide +kernel), by decide +kernel, by decide +kernel, by decide +kernel,
    by decide +kernel, by decide +kernel⟩

end CSharp

end ClassDiagram
