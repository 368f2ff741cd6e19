import ClassDiagram.Proofs.Text.Mark

/-!
# What a text is spelled with

A written declaration consists of names and of the few signs that stand between them. What the
scanners can meet in it is said by the class of its letters and the list of its signs, and both
follow from how the text is written.

* `Spelled`: every character is a letter of a class or one of some signs.
* `Spelled.append`, `Spelled.cons`, `Spelled.join`, `Spelled.listed`: what a text is written from.
* `Spelled.forall_mem`, `Spelled.not_mem`: what the spelling says of each character.
-/

namespace ClassDiagram

namespace Text

/-- Whether every character of a text is a letter of a class or one of some signs. -/
def Spelled (isLetter : Char → Bool) (signs : List Char) (text : Text) : Prop :=
  ∀ c ∈ text, isLetter c = true ∨ c ∈ signs

namespace Spelled

variable {isLetter : Char → Bool} {signs : List Char} {text rest : Text} {c : Char}

/-- Letters alone are spelled with any signs. -/
theorem of_letters (h : ∀ c ∈ text, isLetter c = true) : Spelled isLetter signs text :=
  fun c hc => Or.inl (h c hc)

/-- The spelling of a text that is written out. -/
theorem of_all (h : text.all (fun c => isLetter c || signs.contains c) = true) :
    Spelled isLetter signs text := by
  intro c hc
  have hchar := List.all_eq_true.mp h c hc
  rwa [Bool.or_eq_true, List.contains_iff_mem] at hchar

theorem nil : Spelled isLetter signs [] := List.forall_mem_nil _

theorem cons (hc : isLetter c = true ∨ c ∈ signs) (h : Spelled isLetter signs text) :
    Spelled isLetter signs (c :: text) := List.forall_mem_cons.mpr ⟨hc, h⟩

theorem append (htext : Spelled isLetter signs text) (hrest : Spelled isLetter signs rest) :
    Spelled isLetter signs (text ++ rest) := List.forall_mem_append.mpr ⟨htext, hrest⟩

/-- A list is spelled as its items and its separator are. -/
theorem join {separator : Text} {items : List Text} (hseparator : Spelled isLetter signs separator)
    (hitems : ∀ item ∈ items, Spelled isLetter signs item) :
    Spelled isLetter signs (Text.join separator items) :=
  join_induct (fun _ => .nil) hitems fun _ _ hitem hrest => hitem.append (hseparator.append hrest)

/-- A list in brackets. -/
theorem listed {opener closer : Char} {items : List Text}
    (hopener : isLetter opener = true ∨ opener ∈ signs)
    (hcloser : isLetter closer = true ∨ closer ∈ signs)
    (hseparator : Spelled isLetter signs [',', ' '])
    (hitems : ∀ item ∈ items, Spelled isLetter signs item) :
    Spelled isLetter signs (opener :: (Text.join [',', ' '] items ++ [closer])) :=
  cons hopener ((Spelled.join hseparator hitems).append (cons hcloser .nil))

/-- What holds of the letters and of the signs holds of all characters. -/
theorem forall_mem {holds : Char → Prop} (h : Spelled isLetter signs text)
    (hletters : ∀ c, isLetter c = true → holds c) (hsigns : ∀ c ∈ signs, holds c) :
    ∀ c ∈ text, holds c :=
  fun c hc => (h c hc).elim (hletters c) (hsigns c)

/-- What is spelled with some signs is spelled with more of them. -/
theorem mono {others : List Char} (h : Spelled isLetter signs text) (hsub : signs ⊆ others) :
    Spelled isLetter others text :=
  h.forall_mem (fun _ => Or.inl) fun _ hc => Or.inr (hsub hc)

/-- A character that is neither a letter nor a sign is not in the text. -/
theorem not_mem (h : Spelled isLetter signs text) (hletter : isLetter c = false)
    (hsign : c ∉ signs) : c ∉ text := by
  intro hc
  rcases h c hc with hc | hc
  · rw [hletter] at hc
    exact Bool.false_ne_true hc
  · exact hsign hc

end Spelled

end Text

end ClassDiagram
