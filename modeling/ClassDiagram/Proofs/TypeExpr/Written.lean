import ClassDiagram.Proofs.TypeExpr.Tree

/-!
# What a written type expression is to the scanners

* `TypeTree.spelled`, `TypeTree.tidy`: the characters of an expression and its words.
* `TypeTree.exists_row`: an expression is a row of alternatives, each without a sign of its own
  outside of brackets.
* `TypeTree.Row.Of.splitAlternatives`: these are the alternatives that are found.
* `TypeTree.nested`: the brackets of an expression pair up, and its commas are all inside of them.
-/

namespace ClassDiagram

open Text

/-- A dialect whose signs are those of the four languages. -/
structure Dialect.Regular (dialect : Dialect) : Prop where
  opener : dialect.opener = '<' ∨ dialect.opener = '['
  alternatives : ∀ sign ∈ dialect.alternatives, sign = '|' ∨ sign = '&'
  dropped : ∀ word ∈ dialect.droppedWords, word ≠ "" ∧ word.toList.all isWordChar = true

namespace Dialect

theorem regular_cSharp : cSharp.Regular := ⟨by decide, forall_chars (by decide), by decide⟩

theorem regular_typeScript : typeScript.Regular := ⟨by decide, forall_chars (by decide), by decide⟩

theorem regular_python : python.Regular := ⟨by decide, forall_chars (by decide), by decide⟩

theorem regular_java : java.Regular := ⟨by decide, forall_chars (by decide), by decide⟩

/-- The brackets of type arguments are a pair. -/
theorem Regular.pair {dialect : Dialect} (h : dialect.Regular) :
    closer? dialect.opener = some dialect.closer := by
  unfold closer
  rcases h.opener with heq | heq <;> rw [heq] <;> decide

/-- What holds of all brackets that type arguments may have holds of those of a dialect. -/
theorem Regular.brackets {dialect : Dialect} (h : dialect.Regular) (holds : Char → Prop)
    (hall : ∀ c ∈ ['<', '>', '[', ']'], holds c) :
    holds dialect.opener ∧ holds dialect.closer := by
  unfold closer
  rcases h.opener with heq | heq <;> rw [heq] <;> exact ⟨hall _ (by decide), hall _ (by decide)⟩

end Dialect

namespace TypeTree

variable {dialect : Dialect}

/-- Array brackets hold nothing but commas. -/
theorem mem_arrayBrackets {commas : Nat} {c : Char} (h : c ∈ arrayBrackets commas) :
    c ∈ ['[', ',', ']'] := by
  simp only [arrayBrackets, List.mem_cons, List.mem_append, List.mem_replicate, List.not_mem_nil,
    or_false] at h
  rcases h with rfl | ⟨_, rfl⟩ | rfl <;> decide

/-- The signs in an expression without marks of nullability and quotes. -/
def typeSigns : List Char := ['.', ',', ' ', ':', '<', '>', '[', ']', '(', ')', '=', '|', '&']

/-- Parentheses are among the signs of types. -/
theorem spelled_paren {text : Text} (h : Spelled isDollarNameChar typeSigns text) (inParens : Bool) :
    Spelled isDollarNameChar typeSigns (paren inParens text) := by
  unfold paren
  split
  · exact .cons (by decide) (h.append (.cons (by decide) .nil))
  · exact h

theorem spelled_arrayBrackets (commas : Nat) :
    Spelled isDollarNameChar typeSigns (arrayBrackets commas) := by
  have hsigns : ∀ c ∈ ['[', ',', ']'], c ∈ typeSigns := forall_chars (by decide)
  exact fun c hc => Or.inr (hsigns c (mem_arrayBrackets hc))

/-- A type is spelled with names and the signs of types. -/
theorem spelled (hregular : dialect.Regular) (type : TypeTree dialect) :
    Spelled isDollarNameChar typeSigns type.plain := by
  have hcomma : Spelled isDollarNameChar typeSigns [',', ' '] := .of_all (by decide)
  have hbrackets := hregular.brackets (· ∈ typeSigns) (forall_chars (by decide))
  unfold plain
  induction type using induct with
  | named name => exact name.spelled (by decide)
  | applied head first others ih =>
      rw [write_applied]
      exact (head.spelled (by decide)).append
        (.listed (Or.inr hbrackets.1) (Or.inr hbrackets.2) hcomma (List.forall_mem_map.mpr ih))
  | nullable inner angles ih =>
      rw [write_nullable]
      exact ih.append .nil
  | array element commas angles ih => exact ih.append (spelled_arrayBrackets commas)
  | joined inParens sign left right separates ihleft ihright =>
      have hsign : sign ∈ typeSigns := by
        rcases hregular.alternatives sign separates with rfl | rfl <;> decide
      rw [write_joined]
      exact spelled_paren (ihleft.append (.cons (by decide) (.cons (Or.inr hsign)
        (.cons (by decide) ihright)))) inParens
  | function inParens params result angles ihparams ihresult =>
      have hparams : ∀ param ∈ params,
          Spelled isDollarNameChar typeSigns (writeParam false param) := by
        rintro ⟨name, type⟩ hparam
        exact .append (.of_letters name.nameChar)
          (.cons (by decide) (.cons (by decide) (ihparams _ hparam)))
      have hbehind : Spelled isDollarNameChar typeSigns
          ([')', ' ', '=', '>', ' '] ++ write false result) :=
        .append (.of_all (by decide)) ihresult
      rw [write_function]
      exact spelled_paren (.cons (by decide)
        ((Spelled.join hcomma (List.forall_mem_map.mpr hparams)).append hbehind)) inParens
  | quoted inner squares ih => exact ih

/-- Parentheses keep a type tidy. -/
theorem tidy_paren {text : Text} (h : Tidy text) (inParens : Bool) : Tidy (paren inParens text) := by
  unfold paren
  split
  · have hopen : ∀ c ∈ ['('], isBlank c = false := forall_chars (by decide)
    exact (h.append (.word (by decide) (forall_chars (by decide)))).word_append hopen
  · exact h

theorem tidy_brackets (commas : Nat) : Tidy (arrayBrackets commas) := by
  have hblank : ∀ c ∈ ['[', ',', ']'], isBlank c = false := forall_chars (by decide)
  exact .word (by simp [arrayBrackets]) fun c hc => hblank c (mem_arrayBrackets hc)

/-- A parameter is tidy if its type is. -/
theorem tidy_param {marked : Bool} {param : Identifier × TypeTree dialect}
    (h : Tidy (write marked param.2)) : Tidy (writeParam marked param) := by
  obtain ⟨name, type⟩ := param
  have hname : Tidy (name.chars ++ [':']) :=
    name.tidy.append (.word (by decide) (forall_chars (by decide)))
  have hall := hname.spaced h
  rwa [List.append_assoc] at hall

/-- An expression is words with one space between each two of them. -/
theorem tidy (hregular : dialect.Regular) (type : TypeTree dialect) (marked : Bool) :
    Tidy (write marked type) := by
  have hbrackets := hregular.brackets (isBlank · = false) (forall_chars (by decide))
  induction type using induct generalizing marked with
  | named name => exact name.tidy
  | applied head first others ih =>
      rw [write_applied]
      refine head.tidy.append (Tidy.listed hbrackets.1 hbrackets.2 fun item hitem => ?_)
      obtain ⟨arg, harg, rfl⟩ := List.mem_map.mp hitem
      exact ih arg harg marked
  | nullable inner angles ih =>
      rw [write_nullable]
      cases marked with
      | true => exact (ih true).append (.word (by decide) (forall_chars (by decide)))
      | false => simpa using ih false
  | array element commas angles ih => exact (ih marked).append (tidy_brackets commas)
  | joined inParens sign left right separates ihleft ihright =>
      have hsign : isBlank sign = false := by
        rcases hregular.alternatives _ separates with rfl | rfl <;> decide
      have hword : Tidy [sign] := .word (by simp) (by simpa using hsign)
      exact tidy_paren ((ihleft marked).spaced (hword.spaced (ihright marked))) inParens
  | function inParens params result angles ihparams ihresult =>
      rw [write_function]
      refine tidy_paren ?_ inParens
      have hlist : Tidy ('(' :: (join [',', ' '] (params.map (writeParam marked)) ++ [')'])) := by
        refine Tidy.listed (by decide) (by decide) fun item hitem => ?_
        obtain ⟨param, hparam, rfl⟩ := List.mem_map.mp hitem
        exact tidy_param (ihparams param hparam marked)
      have harrow : Tidy ['=', '>'] := .word (by decide) (forall_chars (by decide))
      have hall := hlist.spaced (harrow.spaced (ihresult marked))
      simpa using hall
  | quoted inner squares ih =>
      rw [write_quoted]
      split
      -- the quotes stand right at the type, which is written without marks inside them
      · have hopen : ∀ c ∈ ['"'], isBlank c = false := forall_chars (by decide)
        exact ((ih false).append (.word (by decide) (forall_chars (by decide)))).word_append hopen
      · exact ih false

/-! ## Alternatives -/

/-- The parameters of a function type. -/
def paramGroup (params : List (Identifier × TypeTree dialect)) : Text :=
  '(' :: (join [',', ' '] (params.map (writeParam false)) ++ [')'])

/-- The parameters of a function type and its arrow. -/
def lead (params : List (Identifier × TypeTree dialect)) : Text :=
  paramGroup params ++ ([' '] ++ ['=', '>'] ++ [' '])

/-- The plain text of a generic type has its arguments' plain texts in brackets. -/
theorem plain_applied (head : DottedName dialect) (first : TypeTree dialect)
    (others : List (TypeTree dialect)) :
    (applied head first others).plain = head.text ++ dialect.opener ::
      (join [',', ' '] ((first :: others).map plain) ++ [dialect.closer]) := by
  rw [plain, write_applied]
  rfl

/-- The plain text of a nullable type is that of the type. -/
theorem plain_nullable (inner : TypeTree dialect) (angles : dialect.opener = '<') :
    (nullable inner angles).plain = inner.plain := by
  rw [plain, write_nullable]
  exact List.append_nil _

/-- The plain text of an array is its element's with brackets behind it. -/
theorem plain_array (element : TypeTree dialect) (commas : Nat) (angles : dialect.opener = '<') :
    (array element commas angles).plain = element.plain ++ arrayBrackets commas := by
  rw [plain, write_array]
  rfl

/-- The plain text of two alternatives has their sign between them. -/
theorem plain_joined (inParens : Bool) {sign : Char} (left right : TypeTree dialect)
    (separates : sign ∈ dialect.alternatives) :
    (joined inParens sign left right separates).plain =
      paren inParens (left.plain ++ ([' ', sign, ' '] ++ right.plain)) := by
  rw [plain, write_joined]
  rfl

/-- The plain text of a function's type ends in its result's. -/
theorem plain_function (inParens : Bool) (params : List (Identifier × TypeTree dialect))
    (result : TypeTree dialect) (angles : dialect.opener = '<') :
    (function inParens params result angles).plain =
      paren inParens (lead params ++ result.plain) := by
  rw [plain, write_function]
  simp [lead, paramGroup, plain]

/-- The plain text of a quoted type is that of the type. -/
theorem plain_quoted (inner : TypeTree dialect) (squares : dialect.opener = '[') :
    (quoted inner squares).plain = inner.plain := by
  rw [plain, write_quoted]
  rfl

/-- A row of alternatives: each but the last with the sign behind it. -/
structure Row (dialect : Dialect) where
  fronts : List (TypeTree dialect × Char)
  last : TypeTree dialect

namespace Row

/-- A row as it is written, without marks of nullability and quotes. -/
def plain (row : Row dialect) : Text :=
  row.fronts.flatMap (fun front => front.1.plain ++ [' ', front.2, ' ']) ++ row.last.plain

/-- The alternatives of a row. -/
def types (row : Row dialect) : List (TypeTree dialect) := row.fronts.map Prod.fst ++ [row.last]

/-- The types of a row are those with a sign behind them and the last. -/
theorem mem_types {row : Row dialect} {type : TypeTree dialect} :
    type ∈ row.types ↔ (∃ front ∈ row.fronts, front.1 = type) ∨ type = row.last := by
  simp [types]

end Row

/-- A character that may stand outside of the brackets of a single alternative, or such a bracket. -/
def Single (dialect : Dialect) (c : Char) : Prop := c ≠ ',' ∧ c ∉ dialect.alternatives

/-- Whether an expression joins two alternatives, without parentheses around them. -/
def isJoined : TypeTree dialect → Bool
  | .joined false .. => true
  | _ => false

/-- A row whose alternatives make up an expression and are single. -/
structure Row.Of (row : Row dialect) (type : TypeTree dialect) : Prop where
  plain : row.plain = type.plain
  signs : ∀ front ∈ row.fronts, front.2 ∈ dialect.alternatives
  single : ∀ part ∈ row.types, Nested (Single dialect) part.plain
  used : ∀ name, name ∈ type.used ↔ ∃ part ∈ row.types, name ∈ part.used
  many : type.isJoined = true → row.fronts ≠ []

section Nested

variable (hregular : dialect.Regular)
include hregular

theorem single_of_other {c : Char} (hcomma : c ≠ ',') (hunion : c ≠ '|') (hboth : c ≠ '&') :
    Single dialect c :=
  ⟨hcomma, fun hmem => (hregular.alternatives c hmem).elim hunion hboth⟩

/-- No character of a dotted name parts alternatives. -/
theorem single_of_dotted {c : Char} (h : isDollarNameChar c = true ∨ c = '.') :
    Single dialect c := by
  rcases h with h | rfl
  · exact single_of_other hregular (ne_of_class h (by decide)) (ne_of_class h (by decide))
      (ne_of_class h (by decide))
  · exact single_of_other hregular (by decide) (by decide) (by decide)

/-- The sign between alternatives, with its spaces. -/
theorem nested_sign {sign : Char} (hsign : sign ∈ dialect.alternatives) :
    Nested (· ≠ ',') [' ', sign, ' '] := by
  rcases hregular.alternatives sign hsign with rfl | rfl <;>
    exact .of_inert (forall_chars (by decide))

/-- In an expression commas stand inside of brackets only. -/
theorem Row.Of.nested {row : Row dialect} {type : TypeTree dialect} (h : row.Of type) :
    Nested (· ≠ ',') type.plain := by
  have hsingle : ∀ part ∈ row.types, Nested (· ≠ ',') part.plain :=
    fun part hpart => (h.single part hpart).mono fun _ hc => hc.1
  have hfronts : ∀ fronts : List (TypeTree dialect × Char), fronts ⊆ row.fronts →
      Nested (· ≠ ',') (fronts.flatMap fun front => front.1.plain ++ [' ', front.2, ' ']) := by
    intro fronts hsub
    induction fronts with
    | nil => exact .nil
    | cons front rest ih =>
        have hmem : front ∈ row.fronts := hsub List.mem_cons_self
        have hpart : front.1 ∈ row.types := List.mem_append_left _ (List.mem_map_of_mem hmem)
        rw [List.flatMap_cons]
        exact ((hsingle _ hpart).append (nested_sign hregular (h.signs front hmem))).append
          (ih fun other hother => hsub (List.mem_cons_of_mem _ hother))
  rw [← h.plain]
  exact (hfronts _ (List.Subset.refl _)).append (hsingle _ (by simp [Row.types]))

omit hregular in
theorem nested_name (name : Identifier) : Nested (fun c => isDollarNameChar c = true) name.chars :=
  .of_inert fun c hc => ⟨not_quote_of_nameChar (name.nameChar c hc),
    isInert_of_nameChar (name.nameChar c hc), name.nameChar c hc⟩

omit hregular in
/-- A parameter has no comma outside of brackets if its type has none. -/
theorem nested_param {param : Identifier × TypeTree dialect} (h : Nested (· ≠ ',') param.2.plain) :
    Nested (· ≠ ',') (writeParam false param) := by
  obtain ⟨name, type⟩ := param
  have hname : Nested (· ≠ ',') name.chars :=
    (nested_name name).mono fun c hc => ne_of_class hc (by decide)
  have hcolon : Nested (· ≠ ',') [':', ' '] := .of_inert (forall_chars (by decide))
  exact hname.append (hcolon.append h)

omit hregular in
/-- A parameter list pairs up its brackets. -/
theorem nested_params {params : List (Identifier × TypeTree dialect)}
    (h : ∀ param ∈ params, Nested (· ≠ ',') param.2.plain) :
    Nested (fun _ => True) (join [',', ' '] (params.map (writeParam false))) := by
  refine .join (fun item hitem => ?_) (.of_inert (forall_chars (by decide)))
  obtain ⟨param, hparam, rfl⟩ := List.mem_map.mp hitem
  exact (nested_param (h param hparam)).inside

/-- What stands before the result of a function type is single. -/
theorem nested_lead {params : List (Identifier × TypeTree dialect)}
    (h : ∀ param ∈ params, Nested (· ≠ ',') param.2.plain) :
    Nested (Single dialect) (lead params) := by
  have hother : ∀ c, c ≠ ',' → c ≠ '|' → c ≠ '&' → Single dialect c :=
    fun _ => single_of_other hregular
  have hspace : Nested (Single dialect) [' '] := by
    refine .of_inert fun c hc => ?_
    rw [List.mem_singleton.mp hc]
    exact ⟨by decide, by decide, hother ' ' (by decide) (by decide) (by decide)⟩
  have hparens : Nested (Single dialect) (paramGroup params) :=
    .group rfl (hother '(' (by decide) (by decide) (by decide))
      (hother ')' (by decide) (by decide) (by decide)) (nested_params h)
  have harrow : Nested (Single dialect) ['=', '>'] :=
    .arrow (hother '=' (by decide) (by decide) (by decide))
      (hother '>' (by decide) (by decide) (by decide))
  exact hparens.append ((hspace.append harrow).append hspace)

/-- What stands in parentheses is a single alternative. -/
theorem nested_parens {text : Text} (h : Nested (fun _ => True) text) :
    Nested (Single dialect) (paren true text) :=
  .group rfl (single_of_other hregular (by decide) (by decide) (by decide))
    (single_of_other hregular (by decide) (by decide) (by decide)) h

/-- A generic type is a single alternative. -/
theorem nested_applied {head : DottedName dialect} {first : TypeTree dialect}
    {others : List (TypeTree dialect)}
    (h : ∀ arg ∈ first :: others, Nested (fun _ => True) arg.plain) :
    Nested (Single dialect) (applied head first others).plain := by
  have hother := hregular.brackets (fun c => c ≠ ',' ∧ c ≠ '|' ∧ c ≠ '&') (forall_chars (by decide))
  have hopener : Single dialect dialect.opener :=
    single_of_other hregular hother.1.1 hother.1.2.1 hother.1.2.2
  have hcloser : Single dialect dialect.closer :=
    single_of_other hregular hother.2.1 hother.2.2.1 hother.2.2.2
  rw [plain_applied]
  refine (head.nested fun _ => single_of_dotted hregular).append
    (.group hregular.pair hopener hcloser (.join (fun item hitem => ?_)
      (.of_inert (forall_chars (by decide)))))
  obtain ⟨arg, harg, rfl⟩ := List.mem_map.mp hitem
  exact h arg harg

/-- Array brackets part no alternatives. -/
theorem nested_arrayBrackets (commas : Nat) : Nested (Single dialect) (arrayBrackets commas) := by
  refine .group rfl (single_of_other hregular (by decide) (by decide) (by decide))
    (single_of_other hregular (by decide) (by decide) (by decide)) (.of_inert fun c hc => ?_)
  rw [List.eq_of_mem_replicate hc]
  exact ⟨by decide, by decide, trivial⟩

/-! ### The row of every kind of expression -/

omit hregular in
/-- An expression without alternatives is a row of its own. -/
theorem Row.Of.alone {type : TypeTree dialect} (hno : type.isJoined = false)
    (hsingle : Nested (Single dialect) type.plain) : Row.Of ⟨[], type⟩ type where
  plain := rfl
  signs := by simp
  single := by simpa [Row.types] using hsingle
  used := by simp [Row.types]
  many := fun hjoined => absurd (hno.symm.trans hjoined) (by simp)

/-- The brackets of an array stand behind its last alternative. -/
theorem Row.Of.array {row : Row dialect} {element : TypeTree dialect} (h : row.Of element)
    (commas : Nat) (angles : dialect.opener = '<') :
    Row.Of ⟨row.fronts, .array row.last commas angles⟩ (.array element commas angles) where
  plain := by
    rw [plain_array, ← h.plain]
    simp [Row.plain, plain_array]
  signs := h.signs
  single := by
    intro part hpart
    rcases Row.mem_types.mp hpart with ⟨front, hfront, rfl⟩ | rfl
    · exact h.single _ (Row.mem_types.mpr (Or.inl ⟨front, hfront, rfl⟩))
    · rw [plain_array]
      exact (h.single _ (Row.mem_types.mpr (Or.inr rfl))).append
        (nested_arrayBrackets hregular commas)
  used := by
    intro name
    rw [show (TypeTree.array element commas angles).used = element.used from rfl, h.used]
    simp [Row.types, TypeTree.used]
  many := nofun

omit hregular in
/-- Two rows with a sign between them are one row. -/
theorem Row.Of.joined {leftRow rightRow : Row dialect} {left right : TypeTree dialect}
    (hleft : leftRow.Of left) (hright : rightRow.Of right) {sign : Char}
    (separates : sign ∈ dialect.alternatives) :
    Row.Of ⟨leftRow.fronts ++ (leftRow.last, sign) :: rightRow.fronts, rightRow.last⟩
      (.joined false sign left right separates) where
  plain := by
    rw [plain_joined, ← hleft.plain, ← hright.plain]
    simp [Row.plain, paren]
  signs := by
    intro front hfront
    rcases List.mem_append.mp hfront with hfront | hfront
    · exact hleft.signs front hfront
    · rcases List.mem_cons.mp hfront with rfl | hfront
      · exact separates
      · exact hright.signs front hfront
  single := by
    have hboth := List.forall_mem_append.mpr ⟨hleft.single, hright.single⟩
    simpa [Row.types] using hboth
  used := by
    intro name
    rw [TypeTree.used, List.mem_append, hleft.used, hright.used]
    simp [Row.types, or_and_right, exists_or, or_assoc]
  many := fun _ => by simp

omit hregular in
/-- The parameters of a function type stand before the first alternative of its result. -/
theorem Row.Of.exists_function {row : Row dialect} {result : TypeTree dialect} (h : row.Of result)
    {params : List (Identifier × TypeTree dialect)} (hlead : Nested (Single dialect) (lead params))
    (angles : dialect.opener = '<') :
    ∃ wrapped : Row dialect, wrapped.Of (.function false params result angles) := by
  have hwrapped : ∀ {part : TypeTree dialect}, Nested (Single dialect) part.plain →
      Nested (Single dialect) (TypeTree.function false params part angles).plain := by
    intro part hpart
    rw [plain_function]
    exact hlead.append hpart
  obtain ⟨fronts, last⟩ := row
  cases fronts with
  | nil =>
      have hlast := h.single last (Row.mem_types.mpr (Or.inr rfl))
      refine ⟨⟨[], .function false params last angles⟩, ?_, by simp,
        by simpa [Row.types] using hwrapped hlast, fun name => ?_, nofun⟩
      · rw [plain_function, ← h.plain]
        simp [Row.plain, plain_function]
      · rw [TypeTree.used, List.mem_append, h.used]
        simp [Row.types, TypeTree.used]
  | cons front rest =>
      -- a result of several alternatives takes the arrow to its first one only
      have hall := h.single
      simp only [Row.types, List.map_cons, List.cons_append, List.forall_mem_cons] at hall
      refine ⟨⟨(.function false params front.1 angles, front.2) :: rest, last⟩,
        ?_, ?_, ?_, fun name => ?_, nofun⟩
      · rw [plain_function, ← h.plain]
        simp [Row.plain, plain_function, paren]
      · simpa using h.signs
      · exact List.forall_mem_cons.mpr ⟨hwrapped hall.1, hall.2⟩
      · rw [TypeTree.used, List.mem_append, h.used]
        simp [Row.types, TypeTree.used, or_assoc]

/-- Every expression is a row of single alternatives. -/
theorem exists_row (type : TypeTree dialect) : ∃ row : Row dialect, row.Of type := by
  have hcommas : ∀ {type : TypeTree dialect}, (∃ row : Row dialect, row.Of type) →
      Nested (· ≠ ',') type.plain := by
    rintro type ⟨row, hrow⟩
    exact hrow.nested hregular
  induction type using induct with
  | named name => exact ⟨_, .alone rfl (name.nested fun _ => single_of_dotted hregular)⟩
  | applied head first others ih =>
      exact ⟨_, .alone rfl
        (nested_applied hregular fun arg harg => (hcommas (ih arg harg)).inside)⟩
  | nullable inner angles ih =>
      obtain ⟨row, hrow⟩ := ih
      refine ⟨row, ?_, hrow.signs, hrow.single, hrow.used, nofun⟩
      rw [hrow.plain, plain_nullable]
  | array element commas angles ih =>
      obtain ⟨row, hrow⟩ := ih
      exact ⟨_, hrow.array hregular commas angles⟩
  | joined inParens sign left right separates ihleft ihright =>
      -- alternatives in parentheses are one alternative, without them they go on in the row
      cases inParens with
      | true =>
          refine ⟨_, .alone rfl ?_⟩
          rw [plain_joined]
          exact nested_parens hregular ((hcommas ihleft).append
            ((nested_sign hregular separates).append (hcommas ihright))).inside
      | false =>
          obtain ⟨leftRow, hleft⟩ := ihleft
          obtain ⟨rightRow, hright⟩ := ihright
          exact ⟨_, hleft.joined hright separates⟩
  | function inParens params result angles ihparams ihresult =>
      have hlead : Nested (Single dialect) (lead params) :=
        nested_lead hregular fun param hparam => hcommas (ihparams param hparam)
      cases inParens with
      | true =>
          refine ⟨_, .alone rfl ?_⟩
          rw [plain_function]
          exact nested_parens hregular (hlead.inside.append (hcommas ihresult).inside)
      | false =>
          obtain ⟨row, hrow⟩ := ihresult
          exact hrow.exists_function hlead angles
  | quoted inner squares ih =>
      obtain ⟨row, hrow⟩ := ih
      refine ⟨row, ?_, hrow.signs, hrow.single, hrow.used, nofun⟩
      rw [hrow.plain, plain_quoted]

/-- The alternatives of a row of single ones are found by their signs. -/
theorem splitAlternatives_row {fronts : List (TypeTree dialect × Char)} {last : TypeTree dialect}
    (hfronts : ∀ front ∈ fronts, front.2 ∈ dialect.alternatives ∧
      Nested (Single dialect) front.1.plain)
    (hlast : Nested (Single dialect) last.plain) :
    Unquoted (Row.plain ⟨fronts, last⟩) ∧
      dialect.splitAlternatives (Row.plain ⟨fronts, last⟩) =
        (Row.types ⟨fronts, last⟩).map plain := by
  have hseparates : ∀ c, Single dialect c → dialect.alternatives.contains c = false :=
    fun c hc => by simpa using hc.2
  have hinert : ∀ c, dialect.alternatives.contains c = true → isInert c = true := by
    intro c hc
    rcases hregular.alternatives c (by simpa using hc) with rfl | rfl <;> decide
  have hspace : Single dialect ' ' :=
    single_of_other hregular (by decide) (by decide) (by decide)
  induction fronts with
  | nil =>
      have htidy := tidy hregular last false
      exact ⟨hlast.unquoted, splitTop_nested hlast hseparates htidy htidy.strip⟩
  | cons front rest ih =>
      obtain ⟨⟨hsign, hfirst⟩, hrest⟩ := List.forall_mem_cons.mp hfronts
      obtain ⟨hunquoted, hsplit⟩ := ih hrest
      -- each alternative is cut with the space before its sign, and trimmed
      have hpadded : Nested (Single dialect) (front.1.plain ++ [' ']) :=
        hfirst.append (.of_inert (by simpa using ⟨by decide, by decide, hspace⟩))
      have hquote : Literal.isQuote front.2 = false := by
        rcases hregular.alternatives _ hsign with heq | heq <;> rw [heq] <;> decide
      have hbehind : Unquoted (' ' :: Row.plain ⟨rest, last⟩) :=
        List.forall_mem_cons.mpr ⟨by decide, hunquoted⟩
      have htext : Row.plain ⟨front :: rest, last⟩ =
          (front.1.plain ++ [' ']) ++ front.2 :: ' ' :: Row.plain ⟨rest, last⟩ := by
        simp [Row.plain]
      have htidy := tidy hregular front.1 false
      refine ⟨?_, ?_⟩
      · rw [htext]
        exact List.forall_mem_append.mpr ⟨hpadded.unquoted,
          List.forall_mem_cons.mpr ⟨hquote, hbehind⟩⟩
      · rw [htext]
        unfold Dialect.splitAlternatives at hsplit ⊢
        rw [splitTop_append hpadded hbehind hinert (by simpa using hsign) hquote,
          splitTop_space_cons hunquoted (hseparates ' ' hspace), hsplit,
          splitTop_nested hpadded hseparates htidy (htidy.strip_before (forall_chars (by decide)))]
        rfl

/-- Cut at its alternatives, a type is the row that makes it up. -/
theorem Row.Of.splitAlternatives {row : Row dialect} {type : TypeTree dialect} (h : row.Of type) :
    dialect.splitAlternatives type.plain = row.types.map TypeTree.plain := by
  rw [← h.plain]
  refine (splitAlternatives_row hregular (fun front hfront => ⟨h.signs front hfront, ?_⟩) ?_).2
  · exact h.single _ (Row.mem_types.mpr (Or.inl ⟨front, hfront, rfl⟩))
  · exact h.single _ (Row.mem_types.mpr (Or.inr rfl))

/-- The brackets of an expression pair up, and its commas are all inside of them. -/
theorem nested (type : TypeTree dialect) : Nested (· ≠ ',') type.plain := by
  obtain ⟨row, hrow⟩ := exists_row hregular type
  exact hrow.nested hregular

end Nested

end TypeTree

end ClassDiagram
