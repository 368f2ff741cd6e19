import ClassDiagram.Proofs.Rendered.Ident
import ClassDiagram.Proofs.Text.Mark

/-!
# Nominal types

The types of a nominal language as they are written: dotted names, names applied to arguments in
angle brackets, nullable types and arrays.

* `Nominal.induct`: induction over types, with a hypothesis for every argument.
* `Nominal.balanced`, `Nominal.tidy`, `Nominal.avoids`: what a written type is to the scanners.
-/

namespace ClassDiagram

open Text

/-- A type of a nominal language whose names are none of some reserved words. -/
inductive Nominal (reserved : List String) where
  | named (name : Dotted reserved)
  | applied (head : Dotted reserved) (args : List (Nominal reserved))
  | nullable (inner : Nominal reserved)
  | array (inner : Nominal reserved)

namespace Nominal

variable {reserved : List String}

mutual

/-- A type as it is written. -/
def text : Nominal reserved → Text
  | .named name => name.text
  | .applied head args => head.text ++ '<' :: (join [',', ' '] (texts args) ++ ['>'])
  | .nullable inner => inner.text ++ ['?']
  | .array inner => inner.text ++ ['[', ']']

/-- Types as they are written, one by one. -/
def texts : List (Nominal reserved) → List Text
  | [] => []
  | first :: rest => first.text :: texts rest

end

theorem texts_eq_map (types : List (Nominal reserved)) : texts types = types.map text := by
  induction types with
  | nil => rfl
  | cons first rest ih => rw [texts, ih, List.map_cons]

/-- Induction over types, with a hypothesis for every argument. -/
theorem induct {motive : Nominal reserved → Prop} (named : ∀ name, motive (.named name))
    (applied : ∀ head args, (∀ arg ∈ args, motive arg) → motive (.applied head args))
    (nullable : ∀ inner, motive inner → motive (.nullable inner))
    (array : ∀ inner, motive inner → motive (.array inner)) : ∀ type, motive type
  | .named name => named name
  | .applied head args => applied head args fun arg _ => induct named applied nullable array arg
  | .nullable inner => nullable inner (induct named applied nullable array inner)
  | .array inner => array inner (induct named applied nullable array inner)

/-- What stands outside of the brackets of a type, and these brackets. -/
def isTypeChar (c : Char) : Bool := isIdentChar c || ['.', '<', '>', '?', '[', ']'].contains c

theorem isTypeChar_of_dotted {c : Char} (h : isIdentChar c = true ∨ c = '.') :
    isTypeChar c = true := by
  rcases h with h | rfl
  · rw [isTypeChar, h, Bool.true_or]
  · decide

theorem balanced (type : Nominal reserved) :
    Balanced .all (fun c => isTypeChar c = true) type.text := by
  induction type using induct with
  | named name => exact name.balanced fun _ => isTypeChar_of_dotted
  | applied head args ih =>
      rw [text, texts_eq_map]
      exact (head.balanced fun _ => isTypeChar_of_dotted).append
        (.listed rfl (by decide) (by decide) (by decide) (List.forall_mem_map.mpr ih))
  | nullable inner ih => exact ih.append (.of_ordinary (forall_chars (by decide)))
  | array inner ih => exact ih.append (.grouped rfl (by decide) (by decide) (by decide) .nil)

theorem tidy (type : Nominal reserved) : Tidy type.text := by
  induction type using induct with
  | named name => exact name.tidy
  | applied head args ih =>
      rw [text, texts_eq_map]
      exact head.tidy.append (.listed (by decide) (by decide) (List.forall_mem_map.mpr ih))
  | nullable inner ih => exact ih.append (.word (by decide) (forall_chars (by decide)))
  | array inner ih => exact ih.append (.word (by decide) (forall_chars (by decide)))

theorem avoids (hempty : "" ∉ reserved) (type : Nominal reserved) : Avoids reserved type.text := by
  induction type using induct with
  | named name => exact name.avoids
  | applied head args ih =>
      rw [text, texts_eq_map]
      have hinner : Avoids reserved (join [',', ' '] (args.map text)) :=
        .join hempty (forall_chars (by decide)) (List.forall_mem_map.mpr ih)
      exact head.avoids.append_cons (by decide) (hinner.append_cons (by decide) (.nil hempty))
  | nullable inner ih => exact ih.append_cons (by decide) (.nil hempty)
  | array inner ih =>
      exact ih.append_cons (by decide) ((Avoids.nil hempty).cons (by decide) hempty)

/-- The characters of a written type. -/
theorem spelled (type : Nominal reserved) : Spelled isTypeChar [',', ' '] type.text := by
  have hdotted : ∀ name : Dotted reserved, Spelled isTypeChar [',', ' '] name.text :=
    fun name => .of_letters fun c hc => isTypeChar_of_dotted (Dotted.mem_text hc)
  induction type using induct with
  | named name => exact hdotted name
  | applied head args ih =>
      rw [text, texts_eq_map]
      exact (hdotted head).append
        (.listed (by decide) (by decide) (.of_all (by decide)) (List.forall_mem_map.mpr ih))
  | nullable inner ih => exact ih.append (.of_all (by decide))
  | array inner ih => exact ih.append (.of_all (by decide))

/-- A type starts with an identifier character. -/
theorem starts (type : Nominal reserved) : StartsIdent type.text := by
  induction type using induct with
  | named name => exact name.starts
  | applied head args _ => exact head.starts.append _
  | nullable inner ih => exact ih.append _
  | array inner ih => exact ih.append _

end Nominal

end ClassDiagram
