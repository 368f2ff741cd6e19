import ClassDiagram.Proofs.Rendered.Ident
import ClassDiagram.Reader.Python

/-!
# Written type hints of Python

The type hints of Python as they are written: dotted names, subscripted names, unions, and
hints in double quotes, which hold no further quotes.

* `Hint.induct`: induction over hints, with a hypothesis for every one inside.
* `TypeTerm.balanced`, `TypeTerm.tidy`, `TypeTerm.spelled`: what a written hint is to the
  scanners.
-/

namespace ClassDiagram

namespace Python

open Text

/-- A hint over some leaves. A union has two operands or more. -/
inductive Hint (Leaf : Type) where
  | named (name : Dotted keywords)
  | applied (head : Dotted keywords) (args : List (Hint Leaf))
  | union (first second : Hint Leaf) (others : List (Hint Leaf))
  | leaf (value : Leaf)

namespace Hint

variable {Leaf : Type}

section Text

variable (write : Leaf → Text)

mutual

/-- A hint as it is written, given how its leaves are. -/
def text : Hint Leaf → Text
  | .named name => name.text
  | .applied head args => head.text ++ '[' :: (join [',', ' '] (texts args) ++ [']'])
  | .union first second others => join [' ', '|', ' '] (text first :: text second :: texts others)
  | .leaf value => write value

/-- Hints as they are written, one by one. -/
def texts : List (Hint Leaf) → List Text
  | [] => []
  | first :: rest => text first :: texts rest

end

/-- The recursion over a list of hints writes each of them. -/
theorem texts_eq_map (types : List (Hint Leaf)) : texts write types = types.map (text write) := by
  induction types with
  | nil => rfl
  | cons first rest ih => rw [texts, ih, List.map_cons]

end Text

/-- Induction over hints, with a hypothesis for every one inside. -/
theorem induct {motive : Hint Leaf → Prop} (named : ∀ name, motive (.named name))
    (applied : ∀ head args, (∀ arg ∈ args, motive arg) → motive (.applied head args))
    (union : ∀ first second others, (∀ operand ∈ first :: second :: others, motive operand) →
      motive (.union first second others))
    (leaf : ∀ value, motive (.leaf value)) (type : Hint Leaf) : motive type := by
  -- the recursor also goes through the lists of hints
  refine @Hint.rec Leaf motive (fun types => ∀ type ∈ types, motive type) named applied ?_
    leaf ?_ ?_ type
  · intro first second others hfirst hsecond hothers
    refine union first second others ?_
    intro operand hoperand
    rcases List.mem_cons.mp hoperand with rfl | hoperand
    · exact hfirst
    · rcases List.mem_cons.mp hoperand with rfl | hoperand
      · exact hsecond
      · exact hothers operand hoperand
  · exact fun type htype => absurd htype List.not_mem_nil
  · intro first rest hfirst hrest type htype
    rcases List.mem_cons.mp htype with rfl | htype
    · exact hfirst
    · exact hrest type htype

/-! ## What a written hint is to the scanners -/

/-- What stands outside of the brackets of a hint, and these brackets. -/
def isTypeChar (c : Char) : Bool := isIdentChar c || ['.', '[', ']', '|', ' ', '"'].contains c

theorem isTypeChar_of_dotted {c : Char} (h : isIdentChar c = true ∨ c = '.') :
    isTypeChar c = true := by
  rcases h with h | rfl
  · rw [isTypeChar, h, Bool.true_or]
  · decide

section Leaves

variable {write : Leaf → Text}

/-- A hint closes its brackets if its leaves do. -/
theorem balanced_of_leaves
    (hleaf : ∀ value, Balanced lineBrackets (fun c => isTypeChar c = true) (write value))
    (type : Hint Leaf) :
    Balanced lineBrackets (fun c => isTypeChar c = true) (type.text write) := by
  induction type using induct with
  | named name => exact name.balanced fun _ => isTypeChar_of_dotted
  | applied head args ih =>
      rw [text, texts_eq_map]
      exact (head.balanced fun _ => isTypeChar_of_dotted).append
        (.listed rfl (by decide) (by decide) (by decide) (List.forall_mem_map.mpr ih))
  | union first second others ih =>
      rw [text, texts_eq_map, ← List.map_cons, ← List.map_cons]
      exact .join (List.forall_mem_map.mpr ih) (.of_ordinary (forall_chars (by decide)))
  | leaf value => exact hleaf value

/-- A hint is tidy if its leaves are. -/
theorem tidy_of_leaves (hleaf : ∀ value, Tidy (write value)) (type : Hint Leaf) :
    Tidy (type.text write) := by
  induction type using induct with
  | named name => exact name.tidy
  | applied head args ih =>
      rw [text, texts_eq_map]
      exact head.tidy.append (.listed (by decide) (by decide) (List.forall_mem_map.mpr ih))
  | union first second others ih =>
      rw [text, texts_eq_map, ← List.map_cons, ← List.map_cons]
      exact .join_spaced (by decide) (List.cons_ne_nil _ _) (List.forall_mem_map.mpr ih)
  | leaf value => exact hleaf value

/-- The signs of a hint without those of its leaves. -/
def plainSigns : List Char := ['.', '[', ']', '|', ' ', ',']

/-- A hint is spelled as its leaves are, with a few signs more. -/
theorem spelled_of_leaves {signs : List Char} (hsub : plainSigns ⊆ signs)
    (hleaf : ∀ value, Spelled isIdentChar signs (write value)) (type : Hint Leaf) :
    Spelled isIdentChar signs (type.text write) := by
  have hdotted : ∀ name : Dotted keywords, Spelled isIdentChar signs name.text :=
    fun name => name.spelled (hsub (by decide))
  have hwritten : ∀ {text : Text}, Spelled isIdentChar plainSigns text →
      Spelled isIdentChar signs text := fun h => h.mono hsub
  induction type using induct with
  | named name => exact hdotted name
  | applied head args ih =>
      rw [text, texts_eq_map]
      exact (hdotted head).append (.listed (Or.inr (hsub (by decide))) (Or.inr (hsub (by decide)))
        (hwritten (.of_all (by decide))) (List.forall_mem_map.mpr ih))
  | union first second others ih =>
      rw [text, texts_eq_map, ← List.map_cons, ← List.map_cons]
      exact .join (hwritten (.of_all (by decide))) (List.forall_mem_map.mpr ih)
  | leaf value => exact hleaf value

end Leaves

end Hint

/-- A hint without quotes. -/
abbrev PlainTerm := Hint Empty

/-- A hint without quotes as it is written in quotes. -/
def quoted (inner : PlainTerm) : Text := '"' :: (inner.text Empty.elim ++ ['"'])

/-- A hint, parts of which may stand in quotes. -/
abbrev TypeTerm := Hint PlainTerm

namespace TypeTerm

variable (type : TypeTerm)

/-- A hint as it is written. -/
def written : Text := Hint.text quoted type

/-- A type closes every bracket that it opens. -/
theorem balanced :
    Balanced lineBrackets (fun c => Hint.isTypeChar c = true) (written type) := by
  refine Hint.balanced_of_leaves ?_ type
  intro inner
  have hinner : Balanced lineBrackets (fun c => Hint.isTypeChar c = true)
      (inner.text Empty.elim) := Hint.balanced_of_leaves (fun value => value.elim) inner
  have htidy : Tidy (inner.text Empty.elim) :=
    Hint.tidy_of_leaves (fun value => value.elim) inner
  have hspelled : Spelled isIdentChar Hint.plainSigns (inner.text Empty.elim) :=
    Hint.spelled_of_leaves (List.Subset.refl _) (fun value => value.elim) inner
  refine .quoted (by decide) ⟨htidy.ne_nil, ?_⟩ hinner .nil
  exact hspelled.forall_mem (fun _ => isQuotable_of_identChar) (forall_chars (by decide))

/-- A type is tidy. -/
theorem tidy : Tidy (written type) := by
  refine Hint.tidy_of_leaves ?_ type
  intro inner
  have hinner : Tidy (inner.text Empty.elim) :=
    Hint.tidy_of_leaves (fun value => value.elim) inner
  have hopen : ∀ c ∈ ['"'], isBlank c = false := forall_chars (by decide)
  exact (hinner.append (.word (by decide) (forall_chars (by decide)))).word_append hopen

/-- The signs of a written hint. -/
def signs : List Char := ['.', '[', ']', '|', ' ', ',', '"']

theorem spelled : Spelled isIdentChar signs (written type) := by
  have hsub : Hint.plainSigns ⊆ signs := by decide
  refine Hint.spelled_of_leaves hsub (fun inner => ?_) type
  exact .cons (by decide) ((Hint.spelled_of_leaves hsub (fun value => value.elim) inner).append
    (.cons (by decide) .nil))

end TypeTerm

end Python

end ClassDiagram
