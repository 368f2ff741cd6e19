import ClassDiagram.Proofs.Rendered.Ident
import ClassDiagram.Proofs.Text.Mark
import ClassDiagram.Reader.TypeScriptMember

/-!
# Written types of TypeScript

The types of TypeScript as they are written: dotted names, names applied to arguments, arrays,
unions and intersections, function types, and types in parentheses.

* `TypeTerm.induct`: induction over types, with a hypothesis for every type inside.
* `TypeTerm.balanced`, `TypeTerm.tidy`, `TypeTerm.avoids`: what a written type is to the scanners.
-/

namespace ClassDiagram

namespace TypeScript

open Text

/-- The words that are no identifiers of a written class. -/
def reservedWords : List String :=
  modifiers ++ ["this", "new", "constructor", "get", "set", "type", "class", "interface", "enum",
    "extends", "implements"] ++ Dialect.typeScript.droppedWords

/-- What joins the operands of a union or an intersection. -/
inductive Junction where
  | union
  | intersection
  deriving DecidableEq, Repr

/-- The sign of a junction. -/
def Junction.sign : Junction → Char
  | union => '|'
  | intersection => '&'

/-- A type. A union or intersection has two operands or more. -/
inductive TypeTerm where
  | named (name : Dotted reservedWords)
  | applied (head : Dotted reservedWords) (args : List TypeTerm)
  | array (element : TypeTerm)
  | joined (junction : Junction) (first second : TypeTerm) (others : List TypeTerm)
  | function (params : List (Ident reservedWords × TypeTerm)) (result : TypeTerm)
  | paren (inner : TypeTerm)

/-- A name and the annotation behind it. -/
def annotated (name : Ident reservedWords) (type : Text) : Text := name.chars ++ ':' :: ' ' :: type

namespace TypeTerm

mutual

/-- A type as it is written. -/
def text : TypeTerm → Text
  | .named name => name.text
  | .applied head args => head.text ++ '<' :: (join [',', ' '] (texts args) ++ ['>'])
  | .array element => element.text ++ ['[', ']']
  | .joined junction first second others =>
    join [' ', junction.sign, ' '] (first.text :: second.text :: texts others)
  | .function params result =>
    '(' :: (join [',', ' '] (paramTexts params) ++ ')' :: ' ' :: '=' :: '>' :: ' ' :: result.text)
  | .paren inner => '(' :: (inner.text ++ [')'])

/-- Types as they are written, one by one. -/
def texts : List TypeTerm → List Text
  | [] => []
  | first :: rest => first.text :: texts rest

/-- Parameters as they are written, one by one. -/
def paramTexts : List (Ident reservedWords × TypeTerm) → List Text
  | [] => []
  | first :: rest => paramText first :: paramTexts rest

/-- A parameter as it is written. -/
def paramText : Ident reservedWords × TypeTerm → Text
  | (name, type) => annotated name type.text

end

/-- The recursion over a list of types writes each of them. -/
theorem texts_eq_map (types : List TypeTerm) : texts types = types.map text := by
  induction types with
  | nil => rfl
  | cons first rest ih => rw [texts, ih, List.map_cons]

/-- The recursion over parameters writes each of them. -/
theorem paramTexts_eq_map (params : List (Ident reservedWords × TypeTerm)) :
    paramTexts params = params.map fun param => annotated param.1 param.2.text := by
  induction params with
  | nil => rfl
  | cons first rest ih => rw [paramTexts, ih, List.map_cons, paramText]

/-- Induction over types, with a hypothesis for every type inside. -/
theorem induct {motive : TypeTerm → Prop} (named : ∀ name, motive (.named name))
    (applied : ∀ head args, (∀ arg ∈ args, motive arg) → motive (.applied head args))
    (array : ∀ element, motive element → motive (.array element))
    (joined : ∀ junction first second others,
      (∀ operand ∈ first :: second :: others, motive operand) →
      motive (.joined junction first second others))
    (function : ∀ params result, (∀ param ∈ params, motive param.2) → motive result →
      motive (.function params result))
    (paren : ∀ inner, motive inner → motive (.paren inner)) (type : TypeTerm) : motive type := by
  -- the recursor also goes through the lists of types and of parameters
  refine @TypeTerm.rec motive (fun types => ∀ type ∈ types, motive type)
    (fun params => ∀ param ∈ params, motive param.2) (fun param => motive param.2) named applied
    array ?_ function paren ?_ ?_ ?_ ?_ ?_ type
  · intro junction first second others hfirst hsecond hothers
    refine joined junction first second others ?_
    intro operand hoperand
    rcases List.mem_cons.mp hoperand with rfl | hoperand
    · exact hfirst
    · rcases List.mem_cons.mp hoperand with rfl | hoperand
      · exact hsecond
      · exact hothers operand hoperand
  · exact fun type htype => absurd htype List.not_mem_nil
  · intro first rest hfirst hrest type htype
    rcases List.mem_cons.mp htype with rfl | htype
    · exact hfirst
    · exact hrest type htype
  · exact fun param hparam => absurd hparam List.not_mem_nil
  · intro first rest hfirst hrest param hparam
    rcases List.mem_cons.mp hparam with rfl | hparam
    · exact hfirst
    · exact hrest param hparam
  · exact fun _ _ htype => htype

/-! ## What a written type is to the scanners -/

/-- What stands outside of the brackets of a type, and these brackets. -/
def isTypeChar (c : Char) : Bool :=
  isIdentChar c || ['.', '<', '>', '[', ']', '(', ')', '=', '|', '&', ' '].contains c

theorem isTypeChar_of_dotted {c : Char} (h : isIdentChar c = true ∨ c = '.') :
    isTypeChar c = true := by
  rcases h with h | rfl
  · rw [isTypeChar, h, Bool.true_or]
  · decide

/-- A type closes every bracket that it opens. -/
theorem balanced (type : TypeTerm) : Balanced .all (fun c => isTypeChar c = true) type.text := by
  induction type using induct with
  | named name => exact name.balanced fun _ => isTypeChar_of_dotted
  | applied head args ih =>
      rw [text, texts_eq_map]
      exact (head.balanced fun _ => isTypeChar_of_dotted).append
        (.listed rfl (by decide) (by decide) (by decide) (List.forall_mem_map.mpr ih))
  | array element ih => exact ih.append (.grouped rfl (by decide) (by decide) (by decide) .nil)
  | joined junction first second others ih =>
      rw [text, texts_eq_map, ← List.map_cons, ← List.map_cons]
      have hsign : Balanced .all (fun c => isTypeChar c = true) [' ', junction.sign, ' '] := by
        cases junction <;> exact .of_ordinary (forall_chars (by decide))
      exact .join (List.forall_mem_map.mpr ih) hsign
  | function params result ihparams ihresult =>
      rw [text, paramTexts_eq_map]
      have hinner : Balanced .all (fun _ => True)
          (join [',', ' '] (params.map fun param => annotated param.1 param.2.text)) := by
        refine .join (List.forall_mem_map.mpr fun param hparam => ?_)
          (.of_ordinary (forall_chars (by decide)))
        exact (param.1.balanced fun _ _ => trivial).append (.char (by decide) trivial
          (.char (by decide) trivial (ihparams param hparam).inside))
      -- the arrow is taken as a whole, as its end is no bracket
      exact .group rfl (by decide) (by decide) (by decide) hinner (.char (by decide) (by decide)
        (.arrow (by decide) (by decide) (.char (by decide) (by decide) ihresult)))
  | paren inner ih => exact .grouped rfl (by decide) (by decide) (by decide) ih.inside

/-- A type is tidy. -/
theorem tidy (type : TypeTerm) : Tidy type.text := by
  induction type using induct with
  | named name => exact name.tidy
  | applied head args ih =>
      rw [text, texts_eq_map]
      exact head.tidy.append (.listed (by decide) (by decide) (List.forall_mem_map.mpr ih))
  | array element ih => exact ih.append (.word (by decide) (forall_chars (by decide)))
  | joined junction first second others ih =>
      rw [text, texts_eq_map, ← List.map_cons, ← List.map_cons]
      exact .join_spaced (by cases junction <;> decide) (List.cons_ne_nil _ _)
        (List.forall_mem_map.mpr ih)
  | function params result ihparams ihresult =>
      rw [text, paramTexts_eq_map]
      have hlist : Tidy ('(' ::
          (join [',', ' '] (params.map fun param => annotated param.1 param.2.text) ++ [')'])) := by
        refine .listed (by decide) (by decide) (List.forall_mem_map.mpr fun param hparam => ?_)
        have hname : Tidy (param.1.chars ++ [':']) :=
          param.1.tidy.append (.word (by decide) (forall_chars (by decide)))
        -- the colon stands right behind the name, the space behind the colon
        have hall := hname.spaced (ihparams param hparam)
        rwa [List.append_assoc] at hall
      have harrow : Tidy ['=', '>'] := .word (by decide) (forall_chars (by decide))
      have hall := hlist.spaced (harrow.spaced ihresult)
      simpa using hall
  | paren inner ih =>
      have hopen : ∀ c ∈ ['('], isBlank c = false := forall_chars (by decide)
      exact (ih.append (.word (by decide) (forall_chars (by decide)))).word_append hopen

/-- There is no reserved word in a type. -/
theorem avoids (type : TypeTerm) : Avoids reservedWords type.text := by
  have hempty : "" ∉ reservedWords := by decide
  induction type using induct with
  | named name => exact name.avoids
  | applied head args ih =>
      rw [text, texts_eq_map]
      have hinner : Avoids reservedWords (join [',', ' '] (args.map text)) :=
        .join hempty (forall_chars (by decide)) (List.forall_mem_map.mpr ih)
      exact head.avoids.append_cons (by decide) (hinner.append_cons (by decide) (.nil hempty))
  | array element ih =>
      exact ih.append_cons (by decide) ((Avoids.nil hempty).cons (by decide) hempty)
  | joined junction first second others ih =>
      rw [text, texts_eq_map, ← List.map_cons, ← List.map_cons]
      exact .join hempty (by cases junction <;> exact forall_chars (by decide))
        (List.forall_mem_map.mpr ih)
  | function params result ihparams ihresult =>
      rw [text, paramTexts_eq_map]
      have hinner : Avoids reservedWords
          (join [',', ' '] (params.map fun param => annotated param.1 param.2.text)) := by
        refine .join hempty (forall_chars (by decide))
          (List.forall_mem_map.mpr fun param hparam => ?_)
        exact param.1.avoids.append_cons (by decide)
          ((ihparams param hparam).cons (by decide) hempty)
      -- the arrow is made of signs, which part the parameters from the result
      have hbehind : Avoids reservedWords ([' ', '=', '>', ' '] ++ result.text) :=
        ihresult.append_others hempty (forall_chars (by decide))
      exact (hinner.append_cons (by decide) hbehind).cons (by decide) hempty
  | paren inner ih =>
      exact (ih.append_cons (by decide) (.nil hempty)).cons (by decide) hempty

/-- The signs of a written type. -/
def typeSigns : List Char := ['.', '<', '>', '[', ']', '(', ')', '=', '|', '&', ' ', ',', ':']

theorem spelled_annotated {type : TypeTerm} (name : Ident reservedWords)
    (h : Spelled isIdentChar typeSigns type.text) :
    Spelled isIdentChar typeSigns (annotated name type.text) :=
  name.spelled.append (.cons (by decide) (.cons (by decide) h))

/-- A type is spelled with names and the signs of types. -/
theorem spelled (type : TypeTerm) : Spelled isIdentChar typeSigns type.text := by
  have hcomma : Spelled isIdentChar typeSigns [',', ' '] := .of_all (by decide)
  induction type using induct with
  | named name => exact name.spelled (by decide)
  | applied head args ih =>
      rw [text, texts_eq_map]
      exact (head.spelled (by decide)).append
        (.listed (by decide) (by decide) hcomma (List.forall_mem_map.mpr ih))
  | array element ih => exact ih.append (.of_all (by decide))
  | joined junction first second others ih =>
      rw [text, texts_eq_map, ← List.map_cons, ← List.map_cons]
      refine .join ?_ (List.forall_mem_map.mpr ih)
      cases junction <;> exact .of_all (by decide)
  | function params result ihparams ihresult =>
      rw [text, paramTexts_eq_map]
      refine .cons (by decide) (.append (.join hcomma (List.forall_mem_map.mpr ?_)) ?_)
      · exact fun param hparam => spelled_annotated param.1 (ihparams param hparam)
      · have harrow : Spelled isIdentChar typeSigns [')', ' ', '=', '>', ' '] := .of_all (by decide)
        exact harrow.append ihresult
  | paren inner ih => exact .cons (by decide) (ih.append (.of_all (by decide)))

end TypeTerm

end TypeScript

end ClassDiagram
