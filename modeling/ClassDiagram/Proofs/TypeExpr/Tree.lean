import ClassDiagram.Proofs.Rendered.Ident
import ClassDiagram.Proofs.Scan.Nested
import ClassDiagram.TypeExpr.Names

/-!
# Written type expressions

The type expressions of all dialects as trees: dotted names, names applied to arguments, and what the
dialect has beyond that, which is nullable types, arrays, alternatives, function types and quoted
types. A tree is a legal expression of its dialect by construction.

* `TypeTree.text` writes an expression, `TypeTree.plain` without marks of nullability and quotes.
* `TypeTree.used` are the names in type position, without the wrappers of the dialect.
* `TypeTree.induct`: induction over trees, with a hypothesis for every tree inside.
-/

namespace ClassDiagram

open Text

/-! ## Names -/

namespace Text

section NameChar

variable {c : Char}

/-- The code points of the blanks. -/
def blankCodes : List Nat := [
  9, 10, 11, 12, 13, 28, 29, 30, 31, 32, 0x85, 0xA0, 0x1680, 0x2000, 0x2001, 0x2002, 0x2003, 0x2004,
  0x2005, 0x2006, 0x2007, 0x2008, 0x2009, 0x200A, 0x2028, 0x2029, 0x202F, 0x205F, 0x3000]

/-- A blank is one of the blanks, by its code. -/
theorem mem_blankCodes (h : isBlank c = true) : c.toNat ∈ blankCodes := by
  simp only [isBlank, Bool.or_eq_true, Bool.and_eq_true, decide_eq_true_eq, beq_iff_eq] at h
  simp only [blankCodes, List.mem_cons, List.not_mem_nil, or_false]
  omega

/-- No blank stands in a name. -/
theorem not_blank_of_nameChar (h : isDollarNameChar c = true) : isBlank c = false := by
  have hcodes : ∀ n ∈ blankCodes, isDollarNameChar (Char.ofNat n) = false := by decide +kernel
  by_contra hblank
  have hcode := hcodes _ (mem_blankCodes (by simpa using hblank))
  rw [Char.ofNat_toNat, h] at hcode
  exact absurd hcode (by simp)

/-- What can start a name can stand in one. -/
theorem nameChar_of_nameStart (h : isDollarNameStart c = true) : isDollarNameChar c = true := by
  rw [isDollarNameStart, Bool.or_eq_true] at h
  rw [isDollarNameChar, Bool.or_eq_true]
  exact h.imp_left fun hstart => isWordChar_of_identChar (isIdentChar_of_nameStart hstart)

/-- No bracket and no equals sign stands in a name. -/
theorem isInert_of_nameChar (h : isDollarNameChar c = true) : isInert c = true := by
  by_contra hno
  simp only [isInert, Brackets.all, Brackets.opens, Brackets.closes, Bool.not_eq_true,
    Bool.not_eq_false', Bool.or_eq_true, Bool.true_and, Bool.not_false, Bool.and_true,
    beq_iff_eq] at hno
  rcases hno with (rfl | ((rfl | rfl) | rfl) | rfl) | ((rfl | rfl) | rfl) | rfl <;>
    exact absurd h (by decide)

/-- No quote stands in a name. -/
theorem not_quote_of_nameChar (h : isDollarNameChar c = true) : Literal.isQuote c = false := by
  by_contra hno
  simp only [Literal.isQuote, Bool.not_eq_false, Bool.or_eq_true, beq_iff_eq] at hno
  rcases hno with (rfl | rfl) | rfl <;> exact absurd h (by decide)

end NameChar

/-! ### Segments -/

section Segments

variable {mark : Char} {items : List Text}

/-- Joined with a mark that none of them holds, texts are found again between the marks. -/
theorem cut_join (h : ∀ item ∈ items, mark ∉ item) (hne : items ≠ []) :
    (join [mark] items).cut (· == mark) = items := by
  have hitem : ∀ item ∈ items, item.cut (· == mark) = [item] := fun item hmem =>
    cut_of_none fun c hc => beq_eq_false_iff_ne.mpr fun heq => h item hmem (heq ▸ hc)
  induction items with
  | nil => exact absurd rfl hne
  | cons first rest ih =>
      have hfirst := hitem first List.mem_cons_self
      cases rest with
      | nil => rwa [join, List.intercalate_singleton]
      | cons second others =>
          rw [join, List.intercalate_cons_cons, List.append_assoc, List.singleton_append,
            cut_append_cons (by simp), hfirst]
          exact congrArg (first :: ·) (ih (fun item hmem => h item (List.mem_cons_of_mem _ hmem))
            (List.cons_ne_nil _ _) fun item hmem => hitem item (List.mem_cons_of_mem _ hmem))

/-- The simple name of parts joined by dots is the last part. -/
theorem simpleName_join (h : ∀ item ∈ items, '.' ∉ item) (hne : items ≠ []) :
    simpleName (join ['.'] items) = items.getLast hne := by
  induction items with
  | nil => exact absurd rfl hne
  | cons first rest ih =>
      cases rest with
      | nil =>
          rw [join, List.intercalate_singleton]
          exact simpleName_of_not_mem (h first List.mem_cons_self)
      | cons second others =>
          rw [join, List.intercalate_cons_cons, List.append_assoc, List.singleton_append,
            simpleName_append_dot]
          exact ih (fun item hmem => h item (List.mem_cons_of_mem _ hmem)) (List.cons_ne_nil _ _)

end Segments

end Text

/-- A letter, underscore or dollar sign, then word characters and dollar signs. -/
structure Identifier where
  chars : Text
  isName : isDollarName chars = true := by decide

namespace Identifier

/-- The name that an identifier spells. -/
def name (identifier : Identifier) : String := String.ofList identifier.chars

theorem ne_nil (identifier : Identifier) : identifier.chars ≠ [] := by
  intro h
  have := identifier.isName
  rw [h] at this
  exact absurd this (by decide)

/-- An identifier is made of the characters of names. -/
theorem nameChar (identifier : Identifier) : ∀ c ∈ identifier.chars, isDollarNameChar c = true := by
  have hname := identifier.isName
  cases hchars : identifier.chars with
  | nil => exact absurd hchars identifier.ne_nil
  | cons first rest =>
      rw [hchars, isDollarName, Bool.and_eq_true, List.all_eq_true] at hname
      intro c hc
      rcases List.mem_cons.mp hc with rfl | hc
      · exact nameChar_of_nameStart hname.1
      · exact hname.2 c hc

/-- A sign that is in no name is not in this one. -/
theorem not_mem (identifier : Identifier) {c : Char} (h : isDollarNameChar c = false) :
    c ∉ identifier.chars :=
  fun hmem => ne_of_class (identifier.nameChar c hmem) h rfl

/-- An identifier is one word. -/
theorem tidy (identifier : Identifier) : Tidy identifier.chars :=
  .word identifier.ne_nil fun c hc => not_blank_of_nameChar (identifier.nameChar c hc)

end Identifier

/-- A text with a sign in it that is in no name is no dotted name. -/
theorem Text.isDottedName_of_sign {text : Text} {c : Char} (h : c ∈ text)
    (hname : isDollarNameChar c = false) (hdot : c ≠ '.') : isDottedName text = false := by
  by_contra hdotted
  rw [Bool.not_eq_false, isDottedName, List.all_eq_true] at hdotted
  rw [← join_cut '.' text] at h
  rcases mem_join h with h | ⟨segment, hsegment, h⟩
  · exact hdot (List.mem_singleton.mp h)
  · exact (Identifier.mk segment (hdotted segment hsegment)).not_mem hname h

/-- Identifiers joined by dots, none of which is a word that the dialect drops. -/
structure DottedName (dialect : Dialect) where
  first : Identifier
  others : List Identifier := []
  kept : ∀ segment ∈ first :: others, segment.name ∉ dialect.droppedWords := by decide

namespace DottedName

variable {dialect : Dialect}

/-- The segments of a dotted name. -/
def segments (name : DottedName dialect) : List Identifier := name.first :: name.others

/-- A dotted name as it is written. -/
def text (name : DottedName dialect) : Text := join ['.'] (name.segments.map Identifier.chars)

/-- The name that is used: the last segment. -/
def last (name : DottedName dialect) : String :=
  (name.segments.getLast (List.cons_ne_nil _ _)).name

/-- A dotted name is made of the characters of names and of dots. -/
theorem mem_text {name : DottedName dialect} {c : Char} (h : c ∈ name.text) :
    isDollarNameChar c = true ∨ c = '.' := by
  rcases mem_join h with h | ⟨item, hitem, h⟩
  · exact Or.inr (List.mem_singleton.mp h)
  · obtain ⟨segment, _, rfl⟩ := List.mem_map.mp hitem
    exact Or.inl (segment.nameChar c h)

theorem spelled (name : DottedName dialect) {signs : List Char} (hdot : '.' ∈ signs) :
    Spelled isDollarNameChar signs name.text :=
  .join (.cons (Or.inr hdot) .nil)
    (List.forall_mem_map.mpr fun segment _ => .of_letters segment.nameChar)

/-- A sign that is in no name and is no dot is not in a dotted name. -/
theorem not_mem (name : DottedName dialect) {c : Char} (h : isDollarNameChar c = false)
    (hdot : c ≠ '.') : c ∉ name.text := by
  intro hmem
  rcases mem_text hmem with hc | hc
  · exact ne_of_class hc h rfl
  · exact hdot hc

/-- There are no brackets in a dotted name, so none is left open. -/
theorem nested (name : DottedName dialect) {top : Char → Prop}
    (h : ∀ c, isDollarNameChar c = true ∨ c = '.' → top c) : Nested top name.text := by
  refine .of_inert fun c hc => ?_
  rcases mem_text hc with hname | rfl
  · exact ⟨not_quote_of_nameChar hname, isInert_of_nameChar hname, h c (Or.inl hname)⟩
  · exact ⟨by decide, by decide, h '.' (Or.inr rfl)⟩

theorem no_dot (name : DottedName dialect) :
    ∀ item ∈ name.segments.map Identifier.chars, '.' ∉ item := by
  intro item hitem
  obtain ⟨segment, _, rfl⟩ := List.mem_map.mp hitem
  exact segment.not_mem (by decide)

theorem segments_ne_nil (name : DottedName dialect) : name.segments.map Identifier.chars ≠ [] :=
  List.cons_ne_nil _ _

/-- A dotted name is read as one. -/
theorem isDottedName_text (name : DottedName dialect) : isDottedName name.text = true := by
  rw [isDottedName, text, cut_join name.no_dot name.segments_ne_nil, List.all_map,
    List.all_eq_true]
  exact fun segment _ => segment.isName

/-- The simple name of a dotted name is its last part. -/
theorem simpleName_text (name : DottedName dialect) :
    String.ofList (simpleName name.text) = name.last := by
  rw [text, simpleName_join name.no_dot name.segments_ne_nil, List.getLast_map]
  rfl

theorem ne_nil (name : DottedName dialect) : name.text ≠ [] := by
  intro h
  have hdotted := name.isDottedName_text
  rw [h] at hdotted
  exact absurd hdotted (by decide)

theorem exists_head (name : DottedName dialect) :
    ∃ c rest, name.text = c :: rest ∧ (isDollarNameChar c = true ∨ c = '.') := by
  obtain ⟨c, rest, htext⟩ := List.exists_cons_of_ne_nil name.ne_nil
  have hmem : c ∈ name.text := by
    rw [htext]
    exact List.mem_cons_self
  exact ⟨c, rest, htext, mem_text hmem⟩

/-- A dotted name is one word. -/
theorem tidy (name : DottedName dialect) : Tidy name.text := by
  refine .word name.ne_nil fun c hc => ?_
  rcases mem_text hc with hname | rfl
  · exact not_blank_of_nameChar hname
  · decide

end DottedName

/-! ## Trees -/

namespace Dialect

/-- The bracket that closes type arguments. -/
def closer (dialect : Dialect) : Char := if dialect.opener = '[' then ']' else '>'

end Dialect

/-- A type expression of a dialect. Alternatives and function types may stand in parentheses. -/
inductive TypeTree (dialect : Dialect) where
  | named (name : DottedName dialect)
  /-- A name applied to one argument or more. -/
  | applied (head : DottedName dialect) (first : TypeTree dialect) (others : List (TypeTree dialect))
  | nullable (inner : TypeTree dialect) (angles : dialect.opener = '<')
  /-- An array, of as many dimensions as there are commas between its brackets, and one more. -/
  | array (element : TypeTree dialect) (commas : Nat) (angles : dialect.opener = '<')
  /-- Two alternatives, of which each may be alternatives again. -/
  | joined (inParens : Bool) (sign : Char) (left right : TypeTree dialect)
      (separates : sign ∈ dialect.alternatives)
  | function (inParens : Bool) (params : List (Identifier × TypeTree dialect))
      (result : TypeTree dialect) (angles : dialect.opener = '<')
  /-- A type in double quotes, in which no quotes stand. -/
  | quoted (inner : TypeTree dialect) (squares : dialect.opener = '[')

namespace TypeTree

variable {dialect : Dialect}

/-- A text, in parentheses or not. -/
def paren (inParens : Bool) (text : Text) : Text :=
  if inParens then '(' :: (text ++ [')']) else text

/-- The brackets of an array. -/
def arrayBrackets (commas : Nat) : Text := '[' :: (List.replicate commas ',' ++ [']'])

mutual

/-- A type expression as it is written, with or without its marks of nullability and quotes. -/
def write : Bool → TypeTree dialect → Text
  | _, .named name => name.text
  | marked, .applied head first others =>
    head.text ++ dialect.opener ::
      (join [',', ' '] (write marked first :: writeAll marked others) ++ [dialect.closer])
  | marked, .nullable inner _ => write marked inner ++ if marked then ['?'] else []
  | marked, .array element commas _ => write marked element ++ arrayBrackets commas
  | marked, .joined inParens sign left right _ =>
    paren inParens (write marked left ++ ' ' :: sign :: ' ' :: write marked right)
  | marked, .function inParens params result _ =>
    paren inParens ('(' :: (join [',', ' '] (writeParams marked params) ++
      ')' :: ' ' :: '=' :: '>' :: ' ' :: write marked result))
  | marked, .quoted inner _ =>
    if marked then '"' :: (write false inner ++ ['"']) else write false inner

/-- Type expressions as they are written, one by one. -/
def writeAll : Bool → List (TypeTree dialect) → List Text
  | _, [] => []
  | marked, first :: rest => write marked first :: writeAll marked rest

/-- Parameters as they are written, one by one. -/
def writeParams : Bool → List (Identifier × TypeTree dialect) → List Text
  | _, [] => []
  | marked, first :: rest => writeParam marked first :: writeParams marked rest

/-- A parameter as it is written. -/
def writeParam : Bool → Identifier × TypeTree dialect → Text
  | marked, (name, type) => name.chars ++ ':' :: ' ' :: write marked type

end

/-- A type expression as it is written. -/
def text (type : TypeTree dialect) : Text := write true type

/-- A type expression without marks of nullability and quotes. -/
def plain (type : TypeTree dialect) : Text := write false type

mutual

/-- The names in type position, each without its qualifiers. A wrapper of the dialect counts only
where it has no arguments, and one that takes values has no arguments that count. -/
def used : TypeTree dialect → List String
  | .named name => [name.last]
  | .applied head first others =>
    if dialect.valueWrappers.contains head.last then []
    else (if dialect.containers.contains head.last then [] else [head.last]) ++
      (used first ++ usedByAll others)
  | .nullable inner _ | .array inner _ _ | .quoted inner _ => used inner
  | .joined _ _ left right _ => used left ++ used right
  | .function _ params result _ => usedByParams params ++ used result

/-- The names in type position in some expressions. -/
def usedByAll : List (TypeTree dialect) → List String
  | [] => []
  | first :: rest => used first ++ usedByAll rest

/-- The names in type position in the annotations of some parameters. -/
def usedByParams : List (Identifier × TypeTree dialect) → List String
  | [] => []
  | first :: rest => usedByParam first ++ usedByParams rest

/-- The names in type position in the annotation of a parameter. -/
def usedByParam : Identifier × TypeTree dialect → List String
  | (_, type) => used type

end

/-- The recursion over a list of types writes each of them. -/
theorem writeAll_eq_map (marked : Bool) (types : List (TypeTree dialect)) :
    writeAll marked types = types.map (write marked) := by
  induction types with
  | nil => rfl
  | cons first rest ih => exact congrArg (write marked first :: ·) ih

/-- The recursion over parameters writes each of them. -/
theorem writeParams_eq_map (marked : Bool) (params : List (Identifier × TypeTree dialect)) :
    writeParams marked params = params.map (writeParam marked) := by
  induction params with
  | nil => rfl
  | cons first rest ih => exact congrArg (writeParam marked first :: ·) ih

section Write

variable (marked : Bool)

/-- A generic type is written with its arguments in brackets. -/
theorem write_applied (head : DottedName dialect) (first : TypeTree dialect)
    (others : List (TypeTree dialect)) :
    write marked (.applied head first others) = head.text ++ dialect.opener ::
      (join [',', ' '] ((first :: others).map (write marked)) ++ [dialect.closer]) := by
  rw [List.map_cons, ← writeAll_eq_map]
  rfl

/-- A nullable type is written with a question mark behind it, if marks are written. -/
theorem write_nullable (inner : TypeTree dialect) (angles : dialect.opener = '<') :
    write marked (.nullable inner angles) =
      write marked inner ++ if marked then ['?'] else [] := rfl

/-- An array is written as its element's type with brackets behind it. -/
theorem write_array (element : TypeTree dialect) (commas : Nat) (angles : dialect.opener = '<') :
    write marked (.array element commas angles) =
      write marked element ++ arrayBrackets commas := rfl

/-- Two alternatives are written with their sign between them. -/
theorem write_joined (inParens : Bool) {sign : Char} (left right : TypeTree dialect)
    (separates : sign ∈ dialect.alternatives) :
    write marked (.joined inParens sign left right separates) =
      paren inParens (write marked left ++ ' ' :: sign :: ' ' :: write marked right) := rfl

/-- A function's type is written as its parameters, an arrow and its result. -/
theorem write_function (inParens : Bool) (params : List (Identifier × TypeTree dialect))
    (result : TypeTree dialect) (angles : dialect.opener = '<') :
    write marked (.function inParens params result angles) =
      paren inParens ('(' :: (join [',', ' '] (params.map (writeParam marked)) ++
        ')' :: ' ' :: '=' :: '>' :: ' ' :: write marked result)) := by
  rw [← writeParams_eq_map]
  rfl

/-- A quoted type is written in quotes, if marks are written. -/
theorem write_quoted (inner : TypeTree dialect) (squares : dialect.opener = '[') :
    write marked (.quoted inner squares) =
      if marked then '"' :: (write false inner ++ ['"']) else write false inner := rfl

end Write

/-- A list of types uses what each of them uses. -/
theorem usedByAll_eq_flatMap (types : List (TypeTree dialect)) :
    usedByAll types = types.flatMap used := by
  induction types with
  | nil => rfl
  | cons first rest ih => rw [usedByAll, ih, List.flatMap_cons]

/-- Parameters use what their types use. -/
theorem usedByParams_eq_flatMap (params : List (Identifier × TypeTree dialect)) :
    usedByParams params = (params.map Prod.snd).flatMap used := by
  induction params with
  | nil => rfl
  | cons first rest ih => rw [usedByParams, ih, List.map_cons, List.flatMap_cons, usedByParam]

/-- Induction over trees, with a hypothesis for every tree inside. -/
theorem induct {motive : TypeTree dialect → Prop} (named : ∀ name, motive (.named name))
    (applied : ∀ head first others, (∀ arg ∈ first :: others, motive arg) →
      motive (.applied head first others))
    (nullable : ∀ inner angles, motive inner → motive (.nullable inner angles))
    (array : ∀ element commas angles, motive element → motive (.array element commas angles))
    (joined : ∀ inParens sign left right separates, motive left → motive right →
      motive (.joined inParens sign left right separates))
    (function : ∀ inParens params result angles, (∀ param ∈ params, motive param.2) →
      motive result → motive (.function inParens params result angles))
    (quoted : ∀ inner squares, motive inner → motive (.quoted inner squares))
    (type : TypeTree dialect) : motive type := by
  -- the recursor also goes through the lists of arguments and of parameters
  refine @TypeTree.rec dialect motive (fun types => ∀ type ∈ types, motive type)
    (fun params => ∀ param ∈ params, motive param.2) (fun param => motive param.2) named ?_
    nullable array joined function quoted ?_ ?_ ?_ ?_ ?_ type
  · intro head first others hfirst hothers
    refine applied head first others fun arg harg => ?_
    rcases List.mem_cons.mp harg with rfl | harg
    · exact hfirst
    · exact hothers arg harg
  · exact fun type htype => absurd htype List.not_mem_nil
  · intro first rest hfirst hrest type htype
    rcases List.mem_cons.mp htype with rfl | htype
    · exact hfirst
    · exact hrest type htype
  · exact fun param hparam => absurd hparam List.not_mem_nil
  · intro first rest hfirst hrest param hparam
    rcases List.mem_cons.mp hparam with rfl | hparam
    · exact hfirst
    · exact hrest param hparam
  · exact fun _ _ htype => htype

end TypeTree

end ClassDiagram
