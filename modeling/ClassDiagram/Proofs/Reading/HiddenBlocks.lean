import ClassDiagram.Proofs.Model.Run
import ClassDiagram.Proofs.Scan.Reached
import Mathlib.Data.List.Forall2

/-!
# Hidden blocks

The members of a C# type are read from a copy of its body in which blocks are hidden. The copy
differs from the body in that some characters are spaces there, and what a block of a method or of a
nested type holds does not show in it at all.

* `PartlyHidden`: a text and a copy of it in which some characters are hidden.
* `partlyHidden_hideBlocks`: what hiding the blocks of a body does to it.
* `Arrives`: the places at which hiding decides about a block.
* `hideBlocks_unseen`: what a block holds that is hidden does not count.
-/

namespace ClassDiagram

namespace Text

/-- Whether `visible` is `text` with some of its characters hidden. -/
def PartlyHidden (text visible : Text) : Prop :=
  List.Forall₂ (fun c shown => shown = c ∨ shown = hideChar c) text visible

namespace PartlyHidden

variable {text visible other shown : Text}

theorem refl (text : Text) : PartlyHidden text text :=
  List.forall₂_same.mpr fun _ _ => Or.inl rfl

theorem hide (text : Text) : PartlyHidden text (Text.hide text) :=
  List.forall₂_map_right_iff.mpr (List.forall₂_same.mpr fun _ _ => Or.inr rfl)

/-- Texts that are partly hidden are partly hidden side by side. -/
theorem append (h : PartlyHidden text visible) (hother : PartlyHidden other shown) :
    PartlyHidden (text ++ other) (visible ++ shown) :=
  List.rel_append h hother

theorem cons (c : Char) (h : PartlyHidden text visible) :
    PartlyHidden (c :: text) (c :: visible) :=
  List.Forall₂.cons (Or.inl rfl) h

/-- Line breaks are never hidden. -/
theorem sameShape (h : PartlyHidden text visible) : SameShape text visible := by
  have htwice : ∀ c, hideChar (hideChar c) = hideChar c := by
    intro c
    unfold hideChar
    split <;> rfl
  refine sameShape_iff.mpr ?_
  induction h with
  | nil => rfl
  | @cons c shown text visible hc _ ih =>
      have hsame : hideChar c = hideChar shown := by
        rcases hc with rfl | rfl
        · rfl
        · exact (htwice c).symm
      exact congrArg₂ List.cons hsame ih

/-- Each character is seen as it is or as a space. -/
theorem getElem? (h : PartlyHidden text visible) (place : Nat) :
    visible[place]? = text[place]? ∨ visible[place]? = some ' ' := by
  induction h generalizing place with
  | nil => exact Or.inl rfl
  | @cons c shown text visible hc _ ih =>
      cases place with
      | zero =>
          rcases hc with rfl | rfl
          · exact Or.inl rfl
          · unfold hideChar
            split
            · rename_i hbreak
              exact Or.inl (by rw [hbreak]; rfl)
            · exact Or.inr rfl
      | succ place => exact ih place

end PartlyHidden

end Text

namespace CSharp

open Text

/-! ## What is hidden -/

/-- Of a property block, no more than its inner blocks is hidden. -/
theorem partlyHidden_hideAccessors (left : Nat) (text : Text) :
    PartlyHidden (text.take (left + 1)) (hideAccessors left text) := by
  have hsplit : ∀ (count more : Nat) (text : Text),
      text.take (count + more) = text.take count ++ (text.drop count).take more :=
    fun count more text => List.take_add
  fun_induction hideAccessors left text with
  | case1 => exact .refl []
  | case2 c rest => exact .refl [c]
  | case3 rest left hclose => exact .hide _
  | case4 left rest close hclose hne hle ih =>
      have hcount : left + 1 + 1 = (close + 1) + (left - close + 1) := by omega
      rw [hcount, hsplit]
      exact (PartlyHidden.hide _).append ih
  | case5 left rest close hclose hne hle =>
      rw [hsplit]
      exact (PartlyHidden.hide _).append (.refl _)
  | case6 left rest hclose =>
      rw [hsplit]
      exact (PartlyHidden.hide _).append (.refl _)
  | case7 left c rest hc ih => exact ih.cons c

/-- Whether the text before a block is the header of a nested type. -/
def announcesType (before : Text) : Bool :=
  (headerRule.next? before).any fun header => !(before.take header.offset).contains '('

/-- The three ways in which a block shows. -/
theorem hideBlock_eq (before inner rest : Text) :
    hideBlock before ('\x7b' :: (inner ++ '\x7d' :: rest)) (inner.length + 1) =
      if announcesType before = true then hide (before ++ '\x7b' :: (inner ++ ['\x7d']))
      else if '(' ∈ before then before ++ '\x7b' :: (hide inner ++ ['\x7d'])
      else before ++ '\x7b' :: hideAccessors inner.length (inner ++ '\x7d' :: rest) := by
  have htake : (inner ++ '\x7d' :: rest).take (inner.length + 1) = inner ++ ['\x7d'] :=
    List.take_length_add_append 1
  unfold hideBlock
  simp only [List.take_succ_cons, htake, List.contains_iff_mem]
  unfold announcesType
  split
  · rfl
  · split
    · simp
    · simp

/-- Of a block and the text before it, some characters up to the closing brace are hidden. -/
theorem partlyHidden_hideBlock (before inner rest : Text) :
    PartlyHidden (before ++ '\x7b' :: (inner ++ ['\x7d']))
      (hideBlock before ('\x7b' :: (inner ++ '\x7d' :: rest)) (inner.length + 1)) := by
  have haccessors := partlyHidden_hideAccessors inner.length (inner ++ '\x7d' :: rest)
  rw [List.take_length_add_append 1] at haccessors
  rw [hideBlock_eq]
  split
  · exact .hide _
  · split
    · exact (PartlyHidden.refl before).append (.cons _ ((PartlyHidden.hide inner).append (.refl _)))
    · exact (PartlyHidden.refl before).append (.cons _ haccessors)

/-! ## One step -/

section Step

variable {before inner rest : Text} (hbefore : ∀ c ∈ before, isBound c = false)

include hbefore

/-- A segment ends at the first bound. -/
theorem span_bound {c : Char} (hc : isBound c = true) (rest : Text) :
    (before ++ c :: rest).takeWhile (!isBound ·) = before ∧
      (before ++ c :: rest).dropWhile (!isBound ·) = c :: rest := by
  have hall : ∀ d ∈ before, (!isBound d) = true := fun d hd => by rw [hbefore d hd]; rfl
  rw [List.takeWhile_append_of_pos hall, List.dropWhile_append_of_pos hall,
    List.takeWhile_cons_of_neg (by simp [hc]), List.dropWhile_cons_of_neg (by simp [hc])]
  exact ⟨List.append_nil _, rfl⟩

/-- Without a semicolon or a brace, nothing is hidden. -/
theorem hideBlocks_flat : hideBlocks before = before := by
  have hall : ∀ d ∈ before, (!isBound d) = true := fun d hd => by rw [hbefore d hd]; rfl
  have hdrop : before.dropWhile (!isBound ·) = [] := by
    rw [← List.append_nil before, List.dropWhile_append_of_pos hall]
    rfl
  rw [hideBlocks]
  split
  · rw [← List.append_nil before, List.takeWhile_append_of_pos hall]
    rfl
  · rename_i hcons
    exact absurd (hdrop.symm.trans hcons) (List.cons_ne_nil _ _).symm

/-- Hiding goes on behind a semicolon and behind a brace that closes nothing. -/
theorem hideBlocks_append_bound {c : Char} (hc : c = ';' ∨ c = '\x7d') (rest : Text) :
    hideBlocks (before ++ c :: rest) = before ++ c :: hideBlocks rest := by
  have hbound : isBound c = true := by rcases hc with rfl | rfl <;> decide
  have hbrace : c ≠ '\x7b' := by rcases hc with rfl | rfl <;> decide
  obtain ⟨htake, hdrop⟩ := span_bound hbefore hbound rest
  rw [hideBlocks]
  split
  · rename_i hnil
    exact absurd (hdrop.symm.trans hnil) (List.cons_ne_nil _ _)
  · rename_i d tail hcons
    obtain ⟨rfl, rfl⟩ := List.cons.inj (hdrop.symm.trans hcons)
    rw [if_neg hbrace, htake]

/-- An unclosed block hides all behind its brace. -/
theorem hideBlocks_append_open (hopen : closing? ('\x7b' :: rest) = none) :
    hideBlocks (before ++ '\x7b' :: rest) = before ++ '\x7b' :: hide rest := by
  obtain ⟨htake, hdrop⟩ := span_bound hbefore (show isBound '\x7b' = true by decide) rest
  rw [hideBlocks]
  split
  · rename_i hnil
    exact absurd (hdrop.symm.trans hnil) (List.cons_ne_nil _ _)
  · rename_i d tail hcons
    obtain ⟨rfl, rfl⟩ := List.cons.inj (hdrop.symm.trans hcons)
    rw [if_pos rfl, htake]
    simp only [hopen]

/-- Hiding goes on behind a block. -/
theorem hideBlocks_append_block
    (hclose : closing? ('\x7b' :: (inner ++ '\x7d' :: rest)) = some (inner.length + 1)) :
    hideBlocks (before ++ '\x7b' :: (inner ++ '\x7d' :: rest)) =
      hideBlock before ('\x7b' :: (inner ++ '\x7d' :: rest)) (inner.length + 1) ++
        hideBlocks rest := by
  obtain ⟨htake, hdrop⟩ := span_bound hbefore (show isBound '\x7b' = true by decide)
    (inner ++ '\x7d' :: rest)
  have hrest : (inner ++ '\x7d' :: rest).drop (inner.length + 1) = rest :=
    List.drop_length_add_append 1
  rw [hideBlocks]
  split
  · rename_i hnil
    exact absurd (hdrop.symm.trans hnil) (List.cons_ne_nil _ _)
  · rename_i c tail hcons
    obtain ⟨rfl, rfl⟩ := List.cons.inj (hdrop.symm.trans hcons)
    rw [if_pos rfl, htake]
    simp only [hclose, hrest]

end Step

/-- A block that is closed, as the text between its braces and what follows. -/
theorem exists_of_closing?_brace {rest : Text} {close : Nat}
    (h : closing? ('\x7b' :: rest) = some close) :
    ∃ inner behind, rest = inner ++ '\x7d' :: behind ∧ close = inner.length + 1 ∧
      ∀ other, closing? ('\x7b' :: (inner ++ '\x7d' :: other)) = some (inner.length + 1) := by
  obtain ⟨closer, inner, behind, hpair, hrest, rfl, hother⟩ := exists_of_closing? h
  cases hpair
  exact ⟨inner, behind, hrest, rfl, hother⟩

/-- A body is taken step by step: up to the next semicolon, stray brace, unclosed or closed block. -/
theorem body_induct {motive : Text → Prop}
    (flat : ∀ text, (∀ c ∈ text, isBound c = false) → motive text)
    (bound : ∀ before c rest, (∀ c ∈ before, isBound c = false) → c = ';' ∨ c = '\x7d' →
      motive rest → motive (before ++ c :: rest))
    (opened : ∀ before rest, (∀ c ∈ before, isBound c = false) →
      closing? ('\x7b' :: rest) = none → motive (before ++ '\x7b' :: rest))
    (block : ∀ before inner rest, (∀ c ∈ before, isBound c = false) →
      closing? ('\x7b' :: (inner ++ '\x7d' :: rest)) = some (inner.length + 1) →
      motive rest → motive (before ++ '\x7b' :: (inner ++ '\x7d' :: rest)))
    (text : Text) : motive text := by
  have hbefore : ∀ c ∈ text.takeWhile (!isBound ·), isBound c = false := by
    intro c hc
    simpa using List.all_eq_true.mp List.all_takeWhile c hc
  have hsplit := List.takeWhile_append_dropWhile (p := (!isBound ·)) (l := text)
  cases hdrop : text.dropWhile (!isBound ·) with
  | nil =>
      rw [hdrop, List.append_nil] at hsplit
      exact hsplit ▸ flat _ hbefore
  | cons c rest =>
      have hlength : rest.length < text.length := by
        rw [← hsplit, hdrop, List.length_append, List.length_cons]
        omega
      rw [hdrop] at hsplit
      rw [← hsplit]
      have hc : isBound c = true := by
        have hhead := List.head?_dropWhile_not (!isBound ·) text
        rw [hdrop] at hhead
        simpa using hhead
      -- the induction goes on behind the bound, or behind the block that a brace opens
      by_cases hbrace : c = '\x7b'
      · subst hbrace
        cases hclose : closing? ('\x7b' :: rest) with
        | none => exact opened _ _ hbefore hclose
        | some close =>
            obtain ⟨inner, behind, rfl, rfl, -⟩ := exists_of_closing?_brace hclose
            have : behind.length < text.length := by
              simp only [List.length_append, List.length_cons] at hlength
              omega
            exact block _ _ _ hbefore hclose (body_induct flat bound opened block behind)
      · refine bound _ _ _ hbefore ?_ (body_induct flat bound opened block rest)
        simpa [isBound, hbrace] using hc
termination_by text.length

/-- The visible form of a body is the body with some characters hidden. -/
theorem partlyHidden_hideBlocks (body : Text) : PartlyHidden body (hideBlocks body) := by
  induction body using body_induct with
  | flat text h =>
      rw [hideBlocks_flat h]
      exact .refl text
  | bound before c rest hbefore hc ih =>
      rw [hideBlocks_append_bound hbefore hc]
      exact (PartlyHidden.refl before).append (ih.cons c)
  | opened before rest hbefore hopen =>
      rw [hideBlocks_append_open hbefore hopen]
      exact (PartlyHidden.refl before).append ((PartlyHidden.hide rest).cons _)
  | block before inner rest hbefore hclose ih =>
      rw [hideBlocks_append_block hbefore hclose]
      have hall := (partlyHidden_hideBlock before inner rest).append ih
      simpa using hall

/-! ## Blocks that do not count -/

/-- Whether hiding the blocks of `before ++ rest` arrives at `rest`, where `segment` is what stands
there since the last boundary: a semicolon, a brace that closes nothing, or a block. -/
inductive Arrives (rest : Text) : Text → Text → Prop where
  | here {segment : Text} : (∀ c ∈ segment, isBound c = false) → Arrives rest segment segment
  | bound {passed before segment : Text} {c : Char} : (∀ c ∈ passed, isBound c = false) →
      c = ';' ∨ c = '\x7d' → Arrives rest before segment →
      Arrives rest (passed ++ c :: before) segment
  | block {passed inner before segment : Text} : (∀ c ∈ passed, isBound c = false) →
      closing? ('\x7b' :: (inner ++ '\x7d' :: (before ++ rest))) = some (inner.length + 1) →
      Arrives rest before segment →
      Arrives rest (passed ++ '\x7b' :: (inner ++ '\x7d' :: before)) segment

/-- A block ends where it does whatever stands behind it. -/
theorem closing?_block {inner rest : Text}
    (h : closing? ('\x7b' :: (inner ++ '\x7d' :: rest)) = some (inner.length + 1)) (other : Text) :
    closing? ('\x7b' :: (inner ++ '\x7d' :: other)) = some (inner.length + 1) := by
  have hsplit : ∀ behind : Text, '\x7b' :: (inner ++ '\x7d' :: behind) =
      ('\x7b' :: (inner ++ ['\x7d'])) ++ behind := by
    simp
  rw [hsplit] at h ⊢
  exact closing?_append h (by simp) other

/-- An inner block that does not end in the property block hides it up to its closing brace. -/
theorem hideAccessors_beyond {left : Nat} {text : Text}
    (h : ∀ close ≤ left + 1, closing? ('\x7b' :: text) ≠ some close) :
    hideAccessors (left + 1) ('\x7b' :: text) =
      hide (('\x7b' :: text).take (left + 1)) ++ (text.drop left).take 1 := by
  rw [hideAccessors, if_pos rfl]
  split
  · rename_i close hclose
    have hlate : ¬ close ≤ left + 1 := fun hle => h close hle hclose
    rw [if_neg (by omega), if_neg (by omega)]
  · rfl

/-- Accessors that close where the rest may still be hidden are hidden up to there. -/
theorem hideAccessors_within {left close : Nat} {text : Text}
    (h : closing? ('\x7b' :: text) = some close) (hclose : close ≤ left + 1) :
    hideAccessors (left + 1) ('\x7b' :: text) =
      hide (('\x7b' :: text).take (close + 1)) ++
        if close = left + 1 then [] else hideAccessors (left - close) (text.drop close) := by
  rw [hideAccessors, if_pos rfl]
  simp only [h]
  split
  · rw [List.append_nil]
  · rw [if_pos (by omega)]

/-- What is hidden in a property block depends on nothing behind the block. -/
theorem hideAccessors_append {left : Nat} {front : Text} (hlength : front.length = left + 1)
    (rest other : Text) :
    hideAccessors left (front ++ rest) = hideAccessors left (front ++ other) := by
  cases front with
  | nil => exact absurd hlength (by simp)
  | cons c tail =>
      rw [List.length_cons] at hlength
      rw [List.cons_append, List.cons_append]
      cases left with
      | zero => rw [hideAccessors, hideAccessors]
      | succ left =>
          have hlater : tail.length = left + 1 := Nat.succ.inj hlength
          by_cases hbrace : c = '\x7b'
          · subst hbrace
            have htake : ∀ count ≤ left + 1 + 1, ∀ behind : Text,
                ('\x7b' :: (tail ++ behind)).take count = ('\x7b' :: tail).take count :=
              fun count hcount behind => by
                rw [← List.cons_append, List.take_append_of_le_length]
                rw [List.length_cons]
                omega
            have hmoved : ∀ close ≤ left + 1, ∀ behind after : Text,
                closing? ('\x7b' :: (tail ++ behind)) = some close →
                  closing? ('\x7b' :: (tail ++ after)) = some close := by
              intro close hle behind after hclose
              rw [← List.cons_append] at hclose ⊢
              exact closing?_append hclose (by rw [List.length_cons]; omega) after
            -- a block that closes within the front closes there whatever follows
            by_cases hwithin : ∃ close ≤ left + 1, closing? ('\x7b' :: (tail ++ rest)) = some close
            · obtain ⟨close, hle, hclose⟩ := hwithin
              have hsame := hmoved close hle rest other hclose
              rw [hideAccessors_within hclose hle, hideAccessors_within hsame hle,
                htake _ (by omega), htake _ (by omega)]
              split
              · rfl
              · have hrest : (tail.drop close).length = left - close + 1 := by
                  rw [List.length_drop]
                  omega
                rw [List.drop_append_of_le_length (by omega),
                  List.drop_append_of_le_length (by omega), hideAccessors_append hrest rest other]
            · have hother : ∀ close ≤ left + 1, closing? ('\x7b' :: (tail ++ other)) ≠ some close :=
                fun close hle hclose => hwithin ⟨close, hle, hmoved close hle other rest hclose⟩
              rw [hideAccessors_beyond fun close hle hclose => hwithin ⟨close, hle, hclose⟩,
                hideAccessors_beyond hother, htake _ (by omega), htake _ (by omega),
                List.drop_append_of_le_length (by omega),
                List.drop_append_of_le_length (by omega)]
              have hlast : (tail.drop left).length = 1 := by
                rw [List.length_drop]
                omega
              rw [List.take_append_of_le_length (Nat.le_of_eq hlast.symm),
                List.take_append_of_le_length (Nat.le_of_eq hlast.symm)]
          · rw [hideAccessors, if_neg hbrace, hideAccessors, if_neg hbrace,
              hideAccessors_append hlater rest other]
termination_by front.length

/-- The visible form of a block depends on nothing behind it. -/
theorem hideBlock_append (before inner rest other : Text) :
    hideBlock before ('\x7b' :: (inner ++ '\x7d' :: rest)) (inner.length + 1) =
      hideBlock before ('\x7b' :: (inner ++ '\x7d' :: other)) (inner.length + 1) := by
  have hsplit : ∀ behind : Text, inner ++ '\x7d' :: behind = (inner ++ ['\x7d']) ++ behind := by
    simp
  have haccessors : hideAccessors inner.length (inner ++ '\x7d' :: rest) =
      hideAccessors inner.length (inner ++ '\x7d' :: other) := by
    rw [hsplit, hsplit other]
    exact hideAccessors_append (by simp) rest other
  rw [hideBlock_eq, hideBlock_eq, haccessors]

/-- Up to the place at which hiding arrives, it does the same whatever follows. -/
theorem Arrives.hideBlocks_eq {rest before segment : Text} (h : Arrives rest before segment) :
    ∃ shown, ∀ other,
      hideBlocks (before ++ other) = shown ++ hideBlocks (segment ++ other) := by
  induction h with
  | here => exact ⟨[], fun _ => rfl⟩
  | @bound passed before segment c hpassed hc _ ih =>
      obtain ⟨shown, hshown⟩ := ih
      refine ⟨passed ++ c :: shown, fun other => ?_⟩
      rw [List.append_assoc, List.cons_append, hideBlocks_append_bound hpassed hc, hshown]
      simp
  | @block passed inner before segment hpassed hclose _ ih =>
      obtain ⟨shown, hshown⟩ := ih
      refine ⟨hideBlock passed ('\x7b' :: (inner ++ '\x7d' :: rest)) (inner.length + 1) ++ shown,
        fun other => ?_⟩
      rw [List.append_assoc, List.cons_append, List.append_assoc, List.cons_append,
        hideBlocks_append_block hpassed (closing?_block hclose (before ++ other)), hshown,
        hideBlock_append passed inner (before ++ other) rest, List.append_assoc]

/-- No bound stands in the last segment. -/
theorem Arrives.segment_unbound {rest before segment : Text} (h : Arrives rest before segment) :
    ∀ c ∈ segment, isBound c = false := by
  induction h with
  | here hsegment => exact hsegment
  | bound _ _ _ ih => exact ih
  | block _ _ _ ih => exact ih

/-- Behind a parenthesis or the header of a nested type, a block shows no more than its shape. -/
theorem hideBlock_of_sameShape {segment inner other : Text} (hshape : SameShape inner other)
    (hhidden : '(' ∈ segment ∨ (headerRule.next? segment).isSome = true) (rest : Text) :
    hideBlock segment ('\x7b' :: (inner ++ '\x7d' :: rest)) (inner.length + 1) =
      hideBlock segment ('\x7b' :: (other ++ '\x7d' :: rest)) (other.length + 1) := by
  have hhide : hide (segment ++ '\x7b' :: (inner ++ ['\x7d'])) =
      hide (segment ++ '\x7b' :: (other ++ ['\x7d'])) := by
    have hinner := hshape.hide_eq
    unfold hide at hinner ⊢
    simp [hinner]
  rw [hideBlock_eq, hideBlock_eq, hhide, hshape.hide_eq]
  by_cases hparen : '(' ∈ segment
  · rw [if_pos hparen, if_pos hparen]
  -- without a parenthesis, the header announces a type
  · obtain ⟨header, hheader⟩ := Option.isSome_iff_exists.mp (hhidden.resolve_left hparen)
    have htype : announcesType segment = true := by
      have hfree : '(' ∉ segment.take header.offset := fun hmem => hparen (List.mem_of_mem_take hmem)
      simp [announcesType, hheader, hfree]
    rw [if_pos htype, if_pos htype]

/-- The model after the members of a body have been told of an entity. -/
def readMembers (owner : String) (body : Text) (model : Model) : Model :=
  model.tell .cSharp (memberFacts owner body)

/-- The visible form of a body keeps its length and its line breaks, and each other character stays or
becomes a space. Behind a parenthesis or the header of a nested type, what a block holds does not
show, and the members of the enclosing entity do not depend on it. -/
theorem hideBlocks_unseen :
    (∀ body : Text, SameShape body (hideBlocks body) ∧
      ∀ place : Nat, (hideBlocks body)[place]? = body[place]? ∨
        (hideBlocks body)[place]? = some ' ') ∧
    ∀ before segment inner other behind : Text,
      Arrives ('\x7b' :: (inner ++ '\x7d' :: behind)) before segment →
      '(' ∈ segment ∨ (headerRule.next? segment).isSome = true →
      closing? ('\x7b' :: (inner ++ '\x7d' :: behind)) = some (inner.length + 1) →
      closing? ('\x7b' :: (other ++ '\x7d' :: behind)) = some (other.length + 1) →
      SameShape inner other →
      hideBlocks (before ++ '\x7b' :: (inner ++ '\x7d' :: behind)) =
          hideBlocks (before ++ '\x7b' :: (other ++ '\x7d' :: behind)) ∧
        ∀ owner model,
          readMembers owner (before ++ '\x7b' :: (inner ++ '\x7d' :: behind)) model =
            readMembers owner (before ++ '\x7b' :: (other ++ '\x7d' :: behind)) model := by
  refine ⟨fun body => ⟨(partlyHidden_hideBlocks body).sameShape,
    (partlyHidden_hideBlocks body).getElem?⟩, ?_⟩
  intro before segment inner other behind harrives hhidden hclose hother hshape
  obtain ⟨shown, hshown⟩ := harrives.hideBlocks_eq
  -- all that stands before the block is hidden or shown as before, and the block is hidden
  have hvisible : hideBlocks (before ++ '\x7b' :: (inner ++ '\x7d' :: behind)) =
      hideBlocks (before ++ '\x7b' :: (other ++ '\x7d' :: behind)) := by
    rw [hshown, hshown, hideBlocks_append_block harrives.segment_unbound hclose,
      hideBlocks_append_block harrives.segment_unbound hother,
      hideBlock_of_sameShape hshape hhidden]
  refine ⟨hvisible, fun owner model => ?_⟩
  simp only [readMembers, memberFacts, hvisible]

/-- The front of a method behind a property. -/
def stallMethod : Text := " int Area() ".toList

/-- The property before it, up to its block. -/
def stallProperty : Text := " int Depth ".toList

/-- What the accessor of the property does. -/
def stallAccessor : Text := " get \x7b return 2; \x7d ".toList

/-- What the method does. -/
def stallWork : Text := " return 1; ".toList

/-- Other work of the same shape, with a block and what looks like a field. -/
def otherWork : Text := "\x7bint Wide;\x7d".toList

/-- The rest of the body. -/
def stallBack : Text := " int count; ".toList

/-- The body up to the block of the method. -/
def stallFront : Text := stallProperty ++ '\x7b' :: (stallAccessor ++ '\x7d' :: stallMethod)

theorem hideBlocks_unseen_stall :
    Arrives ('\x7b' :: (stallWork ++ '\x7d' :: stallBack)) stallFront stallMethod ∧
      SameShape stallWork otherWork ∧
      ∀ model, readMembers "Stall" (stallFront ++ '\x7b' :: (stallWork ++ '\x7d' :: stallBack)) model =
        readMembers "Stall" (stallFront ++ '\x7b' :: (otherWork ++ '\x7d' :: stallBack)) model := by
  have harrives : Arrives ('\x7b' :: (stallWork ++ '\x7d' :: stallBack)) stallFront stallMethod :=
    .block (forall_chars (by decide +kernel)) (by decide +kernel)
      (.here (forall_chars (by decide +kernel)))
  have hshape : SameShape stallWork otherWork := by decide +kernel
  exact ⟨harrives, hshape, (hideBlocks_unseen.2 _ _ _ _ _ harrives (Or.inl (by decide +kernel))
    (by decide +kernel) (by decide +kernel) hshape).2 "Stall"⟩

end CSharp

end ClassDiagram
