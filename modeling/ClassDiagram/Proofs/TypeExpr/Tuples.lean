import ClassDiagram.Proofs.Scan.Reached
import ClassDiagram.Proofs.TypeExpr.Names

/-!
# The names that a tuple uses

A tuple is taken apart at its commas. An element that consists of several words is taken for a type
with a name behind it, of which only the first word counts, unless an angle bracket shows that its
spaces stand between type arguments. A tuple inside of a tuple also has spaces. If it holds no type
arguments, it is cut behind its first comma, and the word that is left names nothing.

* `TupleTree`: types made of names, type arguments and tuples.
* `TupleStyle.clean_tuple`, `TupleStyle.step_tuple`: a tuple is read as its elements.
* `TupleStyle.memberType_write`, `TupleStyle.names_memberType_of_cut`: what is read of an element.
* `TupleStyle.nameSet_named`, `TupleStyle.mem_nameSet_applied`, `TupleStyle.mem_nameSet_tuple`: the
  names of a type, by its kind.
* `TupleStyle.nameSet_memberWise`: when the names of a tuple are those of its elements.
-/

namespace ClassDiagram

open Text

/-! ## Searching in vain -/

namespace Text

variable {separates : Char → Bool} {text : Text}

/-- A text without separators is one segment. -/
theorem topSegments_of_none {brackets : Brackets} {depth : Nat} {afterEquals : Bool}
    {pieces : List Piece} (h : ∀ c ∈ pieces.flatMap Piece.chars, separates c = false) :
    topSegments separates brackets depth afterEquals pieces = [pieces.flatMap Piece.chars] := by
  induction pieces generalizing depth afterEquals with
  | nil => rfl
  | cons piece rest ih =>
      rw [List.flatMap_cons] at h ⊢
      have hrest := fun c hc => h c (List.mem_append_right _ hc)
      cases piece with
      | literal value =>
          rw [topSegments, ih hrest]
          rfl
      | char c =>
          have hc := h c (List.mem_append_left _ List.mem_cons_self)
          rw [topSegments, ih hrest]
          simp [hc, attach, Piece.chars]

/-- Without separators there is nothing to split. -/
theorem length_splitTop_of_none {angles : Bool} (h : ∀ c ∈ text, separates c = false) :
    (splitTop text separates angles).length ≤ 1 := by
  unfold splitTop
  rw [topSegments_of_none (by rwa [chars_pieces])]
  exact List.length_filter_le _ _

/-- What begins with a mark that a text does not hold is not found in it. -/
theorem topLevelFrom?_of_not_mem {mark : Char} (h : mark ∉ text) {behind : Text} {depth : Nat}
    {previous : Option Char} : topLevelFrom? (mark :: behind) depth previous text = none := by
  induction text generalizing depth previous with
  | nil => rfl
  | cons c rest ih =>
      have hc : c ≠ mark := fun heq => h (heq ▸ List.mem_cons_self)
      have hstands : standsAt (mark :: behind) previous (c :: rest) = false := by
        unfold standsAt
        split
        · rename_i hequals
          simp [isAssignment, (List.cons.inj hequals).1 ▸ hc]
        · rw [List.isPrefixOf, beq_eq_false_iff_ne.mpr hc.symm, Bool.false_and]
      have hrest : ∀ depth previous, topLevelFrom? (mark :: behind) depth previous rest = none :=
        fun _ _ => ih fun hmem => h (List.mem_cons_of_mem _ hmem)
      rw [topLevelFrom?, if_neg (by simp [hstands])]
      simp only [hrest, Option.map_none]

theorem topLevel?_of_not_mem {mark : Char} (h : mark ∉ text) {behind : Text} :
    topLevel? (mark :: behind) text = none := by
  show (topLevelFrom? (mark :: behind) 0 none text).map (· + 0) = none
  rw [topLevelFrom?_of_not_mem h]
  rfl

/-- A group holds the bracket that closes it. -/
theorem closer_mem_of_isGroup {opener closer : Char} (hpair : closer? opener = some closer)
    (h : isGroup opener text = true) : closer ∈ text := by
  rw [isGroup, Bool.and_eq_true, beq_iff_eq, beq_iff_eq] at h
  obtain ⟨hhead, hclosing⟩ := h
  obtain ⟨rest, rfl⟩ := List.head?_eq_some_iff.mp hhead
  obtain ⟨other, inner, back, hother, hrest, -⟩ := exists_of_closing? hclosing
  obtain rfl : closer = other := Option.some.inj (hpair.symm.trans hother)
  rw [hrest]
  exact List.mem_cons_of_mem _ (List.mem_append_right _ List.mem_cons_self)

end Text

/-! ## Trees -/

/-- A dialect that drops no word, so that any identifiers make up a dotted name of it. -/
def Dialect.wordless : Dialect where
  containers := []
  primitives := []

/-- A type made of names, type arguments and tuples of two elements or more. -/
inductive TupleTree where
  | named (name : DottedName .wordless)
  | applied (head : DottedName .wordless) (first : TupleTree) (others : List TupleTree)
  | tuple (first second : TupleTree) (others : List TupleTree)

/-- A way to write tuples. -/
inductive TupleStyle where
  /-- In parentheses, as in C#. -/
  | parens
  /-- In square brackets, as in TypeScript. -/
  | squares

namespace TupleStyle

/-- The dialect that writes tuples so. -/
def dialect : TupleStyle → Dialect
  | parens => .cSharp
  | squares => .typeScript

/-- The bracket that opens a tuple. -/
def opener : TupleStyle → Char
  | parens => '('
  | squares => '['

/-- The bracket that closes a tuple. -/
def closer : TupleStyle → Char
  | parens => ')'
  | squares => ']'

mutual

/-- A type as it is written. -/
def write (style : TupleStyle) : TupleTree → Text
  | .named name => name.text
  | .applied head first others =>
    head.text ++ '<' :: (join [',', ' '] (write style first :: writeAll style others) ++ ['>'])
  | .tuple first second others =>
    style.opener :: (join [',', ' '] (write style first :: write style second ::
      writeAll style others) ++ [style.closer])

/-- Types as they are written, one by one. -/
def writeAll (style : TupleStyle) : List TupleTree → List Text
  | [] => []
  | first :: rest => write style first :: writeAll style rest

end

variable (style : TupleStyle)

/-- The recursion over a list of types writes each of them. -/
theorem writeAll_eq_map (types : List TupleTree) :
    style.writeAll types = types.map style.write := by
  induction types with
  | nil => rfl
  | cons first rest ih => exact congrArg (style.write first :: ·) ih

theorem write_named (name : DottedName .wordless) : style.write (.named name) = name.text := rfl

/-- A generic type is written with its arguments in angle brackets. -/
theorem write_applied (head : DottedName .wordless) (first : TupleTree) (others : List TupleTree) :
    style.write (.applied head first others) = head.text ++ '<' ::
      (join [',', ' '] ((first :: others).map style.write) ++ ['>']) := by
  rw [List.map_cons, ← writeAll_eq_map]
  rfl

/-- A tuple is written as its members in brackets. -/
theorem write_tuple (first second : TupleTree) (others : List TupleTree) :
    style.write (.tuple first second others) = style.opener ::
      (join [',', ' '] ((first :: second :: others).map style.write) ++ [style.closer]) := by
  rw [List.map_cons, List.map_cons, ← writeAll_eq_map]
  rfl

end TupleStyle

/-- Induction over types, with a hypothesis for every type inside. -/
theorem TupleTree.induct {motive : TupleTree → Prop} (named : ∀ name, motive (.named name))
    (applied : ∀ head first others, (∀ arg ∈ first :: others, motive arg) →
      motive (.applied head first others))
    (tuple : ∀ first second others, (∀ part ∈ first :: second :: others, motive part) →
      motive (.tuple first second others))
    (type : TupleTree) : motive type := by
  -- the recursor also goes through the lists
  refine @TupleTree.rec motive (fun types => ∀ type ∈ types, motive type) named ?_ ?_ ?_ ?_ type
  · exact fun head first others hfirst hothers =>
      applied head first others (List.forall_mem_cons.mpr ⟨hfirst, hothers⟩)
  · exact fun first second others hfirst hsecond hothers => tuple first second others
      (List.forall_mem_cons.mpr ⟨hfirst, List.forall_mem_cons.mpr ⟨hsecond, hothers⟩⟩)
  · exact List.forall_mem_nil _
  · exact fun first rest hfirst hrest => List.forall_mem_cons.mpr ⟨hfirst, hrest⟩

namespace TupleStyle

variable (style : TupleStyle)

/-! ## What is written -/

/-- The dialect of each style is regular. -/
theorem regular : style.dialect.Regular := by
  cases style with
  | parens => exact Dialect.regular_cSharp
  | squares => exact Dialect.regular_typeScript

theorem pair : closer? style.opener = some style.closer := by cases style <;> rfl

/-- The signs in a written type. -/
def signs : List Char := ['.', ',', ' ', '<', '>', '(', ')', '[', ']']

/-- What holds of all brackets that tuples may have holds of those of a style. -/
theorem brackets (holds : Char → Prop) (hall : ∀ c ∈ ['(', ')', '[', ']'], holds c) :
    holds style.opener ∧ holds style.closer := by
  cases style <;> exact ⟨hall _ (by decide), hall _ (by decide)⟩

/-- A type with tuples is spelled with names and a few signs. -/
theorem spelled_write (type : TupleTree) : Spelled isDollarNameChar signs (style.write type) := by
  have hcomma : Spelled isDollarNameChar signs [',', ' '] := .of_all (by decide)
  induction type using TupleTree.induct with
  | named name => exact name.spelled (by decide)
  | applied head first others ih =>
      rw [write_applied]
      exact (head.spelled (by decide)).append
        (.listed (by decide) (by decide) hcomma (List.forall_mem_map.mpr ih))
  | tuple first second others ih =>
      have hbrackets := style.brackets (· ∈ signs) (forall_chars (by decide))
      rw [write_tuple]
      exact .listed (Or.inr hbrackets.1) (Or.inr hbrackets.2) hcomma (List.forall_mem_map.mpr ih)

/-- Nothing of a type with tuples is dropped by the edits. -/
theorem kept_write (type : TupleTree) : ∀ c ∈ style.write type, Dialect.isKept c = true :=
  (style.spelled_write type).forall_mem (fun _ => TypeTree.isKept_of_nameChar)
    (forall_chars (by decide))

/-- A type is words with one space between each two of them. -/
theorem tidy_write (type : TupleTree) : Tidy (style.write type) := by
  have hlist : ∀ {types : List TupleTree}, (∀ type ∈ types, Tidy (style.write type)) →
      ∀ item ∈ types.map style.write, Tidy item := fun ih => List.forall_mem_map.mpr ih
  induction type using TupleTree.induct with
  | named name => exact name.tidy
  | applied head first others ih =>
      rw [write_applied]
      exact head.tidy.append (Tidy.listed (by decide) (by decide) (hlist ih))
  | tuple first second others ih =>
      have hbrackets := style.brackets (isBlank · = false) (forall_chars (by decide))
      rw [write_tuple]
      exact Tidy.listed hbrackets.1 hbrackets.2 (hlist ih)

/-- A list of types pairs up its brackets. -/
theorem nested_list {top : Char → Prop} {types : List TupleTree}
    (h : ∀ type ∈ types, Nested top (style.write type)) :
    Nested (fun _ => True) (join [',', ' '] (types.map style.write)) :=
  .join (List.forall_mem_map.mpr fun type htype => (h type htype).inside)
    (.of_inert (forall_chars (by decide)))

/-- The brackets of a type pair up, and its commas are all inside of them. -/
theorem nested_write (type : TupleTree) :
    Nested (TypeTree.Single style.dialect) (style.write type) := by
  have hsingle : ∀ c, c ≠ ',' ∧ c ≠ '|' ∧ c ≠ '&' → TypeTree.Single style.dialect c :=
    fun _ h => TypeTree.single_of_other style.regular h.1 h.2.1 h.2.2
  induction type using TupleTree.induct with
  | named name => exact name.nested fun _ => TypeTree.single_of_dotted style.regular
  | applied head first others ih =>
      rw [write_applied]
      exact (head.nested fun _ => TypeTree.single_of_dotted style.regular).append
        (.group rfl (hsingle _ (by decide)) (hsingle _ (by decide)) (style.nested_list ih))
  | tuple first second others ih =>
      have hbrackets := style.brackets (fun c => c ≠ ',' ∧ c ≠ '|' ∧ c ≠ '&') (forall_chars (by decide))
      rw [write_tuple]
      exact .group style.pair (hsingle _ hbrackets.1) (hsingle _ hbrackets.2) (style.nested_list ih)

/-! ## Cleaning a tuple -/

/-- Whether a dialect drops no word of a text that a sign follows. -/
def KeepsSigned (dialect : Dialect) (text : Text) : Prop :=
  ∀ sign, isWordChar sign = false → sign ≠ ' ' → dialect.Keeps (text ++ [sign])

/-- A list with a sign behind it keeps its words, also if a single entry would be dropped: a comma
stands behind it, or the sign. -/
theorem keeps_list {items : List Text} (hne : items ≠ [])
    (h : ∀ item ∈ items, KeepsSigned style.dialect item) :
    KeepsSigned style.dialect (join [',', ' '] items) := by
  refine join_induct (fun hempty => absurd hempty hne) h fun item rest hitem hrest => ?_
  intro sign hsign hspace
  have hcomma := hitem ',' (by decide) (by decide)
  simpa using hcomma.spaced (hrest sign hsign hspace)

/-- A name is no word of its own if a sign follows it. -/
theorem keeps_dotted_sign (name : DottedName .wordless) {sign : Char}
    (hsign : isWordChar sign = false) (hspace : sign ≠ ' ') {rest : Text}
    (h : style.dialect.Keeps rest) : style.dialect.Keeps (name.text ++ sign :: rest) := by
  have hname : name.text.cut (· == ' ') = [name.text] := cut_of_none fun c hc =>
    beq_eq_false_iff_ne.mpr fun heq => name.not_mem (by decide) (by decide) (heq ▸ hc)
  obtain ⟨fronts, last, first, others, hfront, hrest, hall⟩ :=
    cut_append_other (· == ' ') (beq_eq_false_iff_ne.mpr hspace) name.text rest
  obtain rfl : fronts = [] := by
    have hlength := congrArg List.length (hname.symm.trans hfront)
    exact List.eq_nil_of_length_eq_zero (by simpa using hlength.symm)
  intro word hword
  rw [hall, List.nil_append] at hword
  rcases List.mem_cons.mp hword with rfl | hword
  · exact Dialect.Keeps.not_dropped style.regular (List.mem_append_right _ List.mem_cons_self) hsign
  · exact h word (by rw [hrest]; exact List.mem_cons_of_mem _ hword)

/-- Between signs, also a name that is a dropped word stays. -/
theorem keepsSigned_write {type : TupleTree}
    (h : (∃ name, type = .named name) ∨ style.dialect.Keeps (style.write type)) :
    KeepsSigned style.dialect (style.write type) := by
  rcases h with ⟨name, rfl⟩ | h
  · exact fun _ hsign hspace => style.keeps_dotted_sign name hsign hspace (.nil style.regular)
  · exact fun _ hsign _ => h.signed style.regular (.nil style.regular) hsign

/-- No word is dropped of a type that is more than a name. -/
theorem keeps_write (type : TupleTree) :
    (∃ name, type = .named name) ∨ style.dialect.Keeps (style.write type) := by
  induction type using TupleTree.induct with
  | named name => exact Or.inl ⟨name, rfl⟩
  | applied head first others ih =>
      have hargs : KeepsSigned style.dialect (join [',', ' '] ((first :: others).map style.write)) :=
        style.keeps_list (List.cons_ne_nil _ _)
          (List.forall_mem_map.mpr fun arg harg => style.keepsSigned_write (ih arg harg))
      rw [write_applied]
      exact Or.inr (style.keeps_dotted_sign head (by decide) (by decide)
        (hargs '>' (by decide) (by decide)))
  | tuple first second others ih =>
      have hbrackets := style.brackets (fun c => isWordChar c = false ∧ c ≠ ' ')
        (forall_chars (by decide))
      have hparts : KeepsSigned style.dialect
          (join [',', ' '] ((first :: second :: others).map style.write)) :=
        style.keeps_list (List.cons_ne_nil _ _)
          (List.forall_mem_map.mpr fun part hpart => style.keepsSigned_write (ih part hpart))
      rw [write_tuple]
      exact Or.inr ((Dialect.Keeps.nil style.regular).signed style.regular
        (hparts _ hbrackets.2.1 hbrackets.2.2) hbrackets.1.1)

/-- The elements of a tuple stand in brackets that close behind the last of them. -/
theorem isGroup_tuple (first second : TupleTree) (others : List TupleTree) :
    isGroup style.opener (style.write (.tuple first second others)) = true := by
  rw [write_tuple]
  exact TypeTree.isGroup_brackets style.pair
    (style.nested_list fun part (_ : part ∈ first :: second :: others) => style.nested_write part)

/-- Cleaning leaves a tuple as it is. -/
theorem clean_tuple (first second : TupleTree) (others : List TupleTree) :
    style.dialect.clean (style.write (.tuple first second others)) =
      style.write (.tuple first second others) := by
  refine Dialect.clean_of_kept (style.kept_write _) (style.tidy_write _).strip
    (style.tidy_write _) ((style.keeps_write _).resolve_left nofun) ?_
  -- square brackets at the end are no array brackets, as they hold all there is
  have hgroup := style.isGroup_tuple first second others
  cases style with
  | parens =>
      refine Or.inr ?_
      rw [write_tuple, ← List.cons_append]
      exact beforeArray?_concat _ (by decide)
  | squares => exact Or.inl hgroup

/-! ## Taking a tuple apart -/

/-- A type is no alternatives. -/
theorem splitAlternatives_write (type : TupleTree) :
    style.dialect.splitAlternatives (style.write type) = [style.write type] :=
  splitTop_nested (style.nested_write type) (fun _ hd => by simpa using hd.2) (style.tidy_write type)
    (style.tidy_write type).strip

/-- A type with tuples is a single alternative. -/
theorem single_write (type : TupleTree) :
    ¬ 1 < (style.dialect.splitAlternatives (style.write type)).length := by
  rw [splitAlternatives_write]
  exact Nat.lt_irrefl 1

/-- Types can be the entries of a list with commas. -/
theorem entry_write (types : List TupleTree) :
    ∀ entry ∈ types.map style.write, Nested (· ≠ ',') entry ∧ Tidy entry :=
  List.forall_mem_map.mpr fun type _ =>
    ⟨(style.nested_write type).mono fun _ hsingle => hsingle.1, style.tidy_write type⟩

/-- A tuple is read as its elements. -/
theorem step_tuple (first second : TupleTree) (others : List TupleTree) :
    style.dialect.step (style.write (.tuple first second others)) =
      ([], (first :: second :: others).map fun part => style.dialect.memberType (style.write part)) := by
  have hgroup : isGroup '(' (style.write (.tuple first second others)) = true ∨
      isGroup '[' (style.write (.tuple first second others)) = true := by
    have hown := style.isGroup_tuple first second others
    cases style with
    | parens => exact Or.inl hown
    | squares => exact Or.inr hown
  have hmembers : groupMembers (style.write (.tuple first second others)) =
      (first :: second :: others).map style.write := by
    rw [write_tuple, TypeTree.groupMembers_brackets]
    exact splitTop_listed (style.entry_write (first :: second :: others))
  unfold Dialect.step
  rw [if_neg (style.single_write _), if_pos hgroup, hmembers, List.map_map]
  rfl

/-! ## Elements that are cut -/

/-- Whether an element is taken for a type with a name behind it: a tuple without type arguments. -/
def IsCut (style : TupleStyle) : TupleTree → Prop
  | .tuple first second others => '<' ∉ style.write (.tuple first second others)
  | _ => False

instance (type : TupleTree) : Decidable (style.IsCut type) :=
  match type with
  | .named _ => inferInstanceAs (Decidable False)
  | .applied _ _ _ => inferInstanceAs (Decidable False)
  | .tuple _ _ _ => inferInstanceAs (Decidable (_ ∉ _))

/-- A member with type arguments is not cut at a space. -/
theorem memberType_of_angle {dialect : Dialect} {member : Text} (h : '<' ∈ member) :
    dialect.memberType member = member := by
  unfold Dialect.memberType
  split
  · rw [if_neg (by simp [h])]
  · rfl

/-- An element that is not cut is read whole. -/
theorem memberType_write {type : TupleTree} (h : ¬ style.IsCut type) :
    style.dialect.memberType (style.write type) = style.write type := by
  cases type with
  | named name =>
      have hword : ∀ c ∈ name.text, isBlank c = false := by
        intro c hc
        rcases DottedName.mem_text hc with hname | rfl
        · exact not_blank_of_nameChar hname
        · decide
      rw [write_named, Dialect.memberType, words_of_word name.ne_nil hword]
  | applied head first others =>
      refine memberType_of_angle ?_
      rw [write_applied]
      exact List.mem_append_right _ List.mem_cons_self
  | tuple first second others => exact memberType_of_angle (Decidable.not_not.mp h)

/-- The signs in the first word of a tuple without type arguments. -/
def openingSigns : List Char := ['.', ',', '(', '[']

/-- Whether a text can be the first word of a tuple without type arguments, which opens the tuple and
closes nothing. -/
structure IsOpening (word : Text) : Prop where
  opens : style.opener ∈ word
  chars : ∀ c ∈ word, isDollarNameChar c = true ∨ c ∈ openingSigns

/-- The first word of a tuple that is cut ends behind a comma. -/
theorem exists_opening {type : TupleTree} (h : style.IsCut type) :
    ∃ word back, style.write type = word ++ ' ' :: back ∧ style.IsOpening word := by
  have hopener : style.opener ∈ openingSigns := by cases style <;> decide
  induction type using TupleTree.induct with
  | named name => exact h.elim
  | applied head first others _ => exact h.elim
  | tuple first second others ih =>
      obtain ⟨more, hwrite⟩ : ∃ more, style.write (.tuple first second others) =
          style.opener :: (style.write first ++ ',' :: ' ' :: more) := by
        refine ⟨join [',', ' '] ((second :: others).map style.write) ++ [style.closer], ?_⟩
        rw [write_tuple, List.map_cons, List.map_cons, join, List.intercalate_cons_cons]
        simp [join]
      have hfirst : '<' ∉ style.write first := by
        intro hmem
        refine h ?_
        rw [hwrite]
        exact List.mem_cons_of_mem _ (List.mem_append_left _ hmem)
      -- the first member has no type arguments, so it is a name or a tuple that is cut itself
      cases first with
      | named name =>
          refine ⟨style.opener :: (name.text ++ [',']), more, ?_, List.mem_cons_self, ?_⟩
          · rw [hwrite, write_named]
            simp
          · exact Spelled.cons (Or.inr hopener)
              ((name.spelled (by decide)).append (.cons (by decide) .nil))
      | applied head inner rest =>
          refine absurd ?_ hfirst
          rw [write_applied]
          exact List.mem_append_right _ List.mem_cons_self
      | tuple inner next rest =>
          obtain ⟨word, back, hinner, hword⟩ := ih _ List.mem_cons_self hfirst
          refine ⟨style.opener :: word, back ++ ',' :: ' ' :: more, ?_, List.mem_cons_self, ?_⟩
          · rw [hwrite, hinner]
            simp
          · exact Spelled.cons (Or.inr hopener) hword.chars

namespace IsOpening

variable {style : TupleStyle} {word : Text} (h : style.IsOpening word)
include h

theorem spelled : Spelled isDollarNameChar openingSigns word := h.chars

theorem ne_nil : word ≠ [] := List.ne_nil_of_mem h.opens

theorem not_blank : ∀ c ∈ word, isBlank c = false :=
  h.spelled.forall_mem (fun _ => not_blank_of_nameChar) (forall_chars (by decide))

/-- Cleaning leaves the opening of a cut tuple as it is. -/
theorem clean : style.dialect.clean word = word := by
  have htidy : Tidy word := .word h.ne_nil h.not_blank
  have hword : word.cut (· == ' ') = [word] := cut_of_none fun c hc =>
    beq_eq_false_iff_ne.mpr fun heq => h.spelled.not_mem (by decide) (by decide) (heq ▸ hc)
  have hbracket := style.brackets (isWordChar · = false) (forall_chars (by decide))
  have hkeeps : style.dialect.Keeps word := by
    intro part hpart
    rw [hword, List.mem_singleton] at hpart
    rw [hpart]
    exact Dialect.Keeps.not_dropped style.regular h.opens hbracket.1
  exact Dialect.clean_of_kept
    (h.spelled.forall_mem (fun _ => TypeTree.isKept_of_nameChar) (forall_chars (by decide))) htidy.strip
    htidy hkeeps (Or.inr (beforeArray?_of_not_mem (h.spelled.not_mem (by decide) (by decide))))

/-- The first word of a tuple names nothing: nothing in it is closed, and it is no name. -/
theorem step : style.dialect.step word = ([], []) := by
  have halternatives : ∀ c ∈ word, style.dialect.alternatives.contains c = false := by
    intro c hc
    rw [← Bool.not_eq_true, List.contains_iff_mem]
    intro halternative
    rcases style.regular.alternatives c halternative with rfl | rfl <;>
      exact h.spelled.not_mem (by decide) (by decide) hc
  -- the opening bracket is not closed in the word
  have hgroup : ¬ (isGroup '(' word = true ∨ isGroup '[' word = true) := by
    rintro (hgroup | hgroup)
    · exact h.spelled.not_mem (by decide) (by decide) (closer_mem_of_isGroup rfl hgroup)
    · exact h.spelled.not_mem (by decide) (by decide) (closer_mem_of_isGroup rfl hgroup)
  have harrow : Dialect.arrow? word = none := by
    rw [Dialect.arrow?, topLevel?_of_not_mem (h.spelled.not_mem (by decide) (by decide))]
    split <;> rfl
  have hangle : style.dialect.opener ∉ word := by
    cases style <;> exact h.spelled.not_mem (by decide) (by decide)
  have hbracket := style.brackets (fun c => isDollarNameChar c = false ∧ c ≠ '.')
    (forall_chars (by decide))
  have hsingle : ¬ 1 < (style.dialect.splitAlternatives word).length :=
    Nat.not_lt.mpr (length_splitTop_of_none halternatives)
  unfold Dialect.step
  rw [if_neg hsingle, if_neg hgroup, harrow,
    indexOf?_of_not_mem hangle, isDottedName_of_sign h.opens hbracket.1.1 hbracket.1.2]
  rfl

/-- There are no names in the opening of a cut tuple. -/
theorem names : style.dialect.names word = [] := by
  rw [TypeTree.names_of_clean (by rw [h.clean]; exact h.ne_nil), h.clean, h.step]
  rfl

end IsOpening

/-- Of an element that is cut only its first word is read. -/
theorem names_memberType_of_cut {type : TupleTree} (h : style.IsCut type) :
    style.dialect.names (style.dialect.memberType (style.write type)) = [] := by
  obtain ⟨word, back, hwrite, hword⟩ := style.exists_opening h
  have htidy := style.tidy_write type
  have hwords : words (style.write type) = word :: words back := by
    rw [hwrite, words_append_cons (by decide), words_of_word hword.ne_nil hword.not_blank]
    rfl
  -- the word is not all of the element
  obtain ⟨second, others, hback⟩ : ∃ second others, words back = second :: others := by
    refine List.exists_cons_of_ne_nil fun hempty => ?_
    have hjoin := htidy.join_words
    rw [hwords, hempty, join, List.intercalate_singleton, hwrite] at hjoin
    exact absurd (congrArg List.length hjoin) (by simp)
  have hangle : '<' ∉ style.write type := by
    cases type with
    | named => exact h.elim
    | applied => exact h.elim
    | tuple => exact h
  have hcompound : style.dialect.isCompound (style.write type) = false := by
    have harrow : includes (style.write type) ['=', '>'] = false := by
      rw [includes, indexOf?_of_not_mem ((style.spelled_write _).not_mem (by decide) (by decide))]
      rfl
    rw [Dialect.isCompound, harrow, splitAlternatives_write]
    rfl
  have hmember : style.dialect.memberType (style.write type) = word := by
    rw [Dialect.memberType, hwords, hback]
    exact if_pos (by simp [hangle, hcompound])
  rw [hmember]
  exact hword.names

/-! ## Names -/

/-- The names found in a written type. -/
def nameSet (type : TupleTree) : NameSet := style.dialect.nameSet (style.write type)

/-- A clean type names what its first step names, and what is named in the rest. -/
theorem names_of_clean_write {type : TupleTree}
    (h : style.dialect.clean (style.write type) = style.write type) :
    style.dialect.names (style.write type) = (style.dialect.step (style.write type)).1 ++
      (style.dialect.step (style.write type)).2.flatMap style.dialect.names := by
  have hne : style.dialect.clean (style.write type) ≠ [] := by
    rw [h]
    exact (style.tidy_write type).ne_nil
  rw [TypeTree.names_of_clean hne, h]

/-- A name gives its last segment, unless it is a word that is dropped. -/
theorem nameSet_named (name : DottedName .wordless) :
    style.nameSet (.named name) =
      if String.ofList name.text ∈ style.dialect.droppedWords then ∅ else .ofList [name.last] := by
  have hspace : ' ' ∉ name.text := name.not_mem (by decide) (by decide)
  have hkept : ∀ c ∈ style.write (.named name), Dialect.isKept c = true := style.kept_write _
  split
  · rename_i hdropped
    have hclean : style.dialect.clean name.text = [] :=
      Dialect.clean_of_dropped hkept name.tidy hspace hdropped
    rw [nameSet, write_named, Dialect.nameSet, Dialect.names, dif_pos hclean]
    rfl
  · rename_i hstays
    -- a name holds no space, so that it is dropped as a whole or not at all
    have hword : name.text.cut (· == ' ') = [name.text] :=
      cut_of_none fun c hc => beq_eq_false_iff_ne.mpr fun heq => hspace (heq ▸ hc)
    have hkeeps : style.dialect.Keeps name.text := by
      intro word hmem
      rw [hword, List.mem_singleton] at hmem
      rwa [hmem]
    have harray : beforeArray? name.text = none :=
      beforeArray?_of_not_mem (name.not_mem (by decide) (by decide))
    have hclean : style.dialect.clean (style.write (.named name)) = style.write (.named name) :=
      Dialect.clean_of_kept hkept name.tidy.strip name.tidy hkeeps (Or.inr harray)
    have hstep := TypeTree.step_named style.regular name (style.single_write (.named name))
    rw [nameSet, Dialect.nameSet, names_of_clean_write style hclean, write_named, hstep]
    simp [name.simpleName_text]

/-- An application gives what its arguments give, and its head unless that is a wrapper. -/
theorem mem_nameSet_applied (head : DottedName .wordless) (first : TupleTree)
    (others : List TupleTree) (name : String) :
    name ∈ style.nameSet (.applied head first others) ↔
      (name = head.last ∧ head.last ∉ style.dialect.containers) ∨
        ∃ arg ∈ first :: others, name ∈ style.nameSet arg := by
  have hangles : style.dialect.opener = '<' ∧ style.dialect.closer = '>' := by
    cases style <;> exact ⟨rfl, rfl⟩
  have hvalues : style.dialect.valueWrappers = [] := by cases style <;> rfl
  have hwrite := style.write_applied head first others
  have hclean : style.dialect.clean (style.write (.applied head first others)) =
      style.write (.applied head first others) := by
    refine Dialect.clean_of_kept (style.kept_write _) (style.tidy_write _).strip
      (style.tidy_write _) ((style.keeps_write _).resolve_left nofun) (Or.inr ?_)
    rw [hwrite, ← List.cons_append, ← List.append_assoc]
    exact beforeArray?_concat _ (by decide)
  have hexpr : style.write (.applied head first others) = head.text ++ style.dialect.opener ::
      (join [',', ' '] ((first :: others).map style.write) ++ [style.dialect.closer]) := by
    rw [hangles.1, hangles.2, hwrite]
  have hfirst := TypeTree.name_first head
    ('<' :: (join [',', ' '] ((first :: others).map style.write) ++ ['>']))
  rw [← hwrite] at hfirst
  -- the first step reads the head, and the arguments are left to read
  have hstep : style.dialect.step (style.write (.applied head first others)) =
      (style.dialect.headName head.text, (first :: others).map style.write) := by
    rw [TypeTree.step_applied style.regular head.tidy (TypeTree.opener_not_mem style.regular head)
      (by simp [Unquoted]) (style.entry_write (first :: others)) hexpr (style.single_write _) hfirst,
      hvalues]
    rfl
  rw [nameSet, Dialect.nameSet, NameSet.mem_ofList, names_of_clean_write style hclean, hstep,
    List.map_append, TypeTree.map_headName, List.mem_append, List.map_flatMap, List.flatMap_map,
    List.mem_flatMap]
  refine or_congr ?_ (exists_congr fun arg => and_congr_right fun _ => NameSet.mem_ofList.symm)
  split <;> simp_all

/-- A tuple gives what its elements give that are not cut. -/
theorem mem_nameSet_tuple (first second : TupleTree) (others : List TupleTree) (name : String) :
    name ∈ style.nameSet (.tuple first second others) ↔
      ∃ part ∈ first :: second :: others, ¬ style.IsCut part ∧ name ∈ style.nameSet part := by
  have hnames := style.names_of_clean_write (style.clean_tuple first second others)
  -- an element that is cut gives nothing, any other is read as it stands
  have hpart : ∀ part, name ∈ (style.dialect.names
      (style.dialect.memberType (style.write part))).map String.ofList ↔
      ¬ style.IsCut part ∧ name ∈ style.nameSet part := by
    intro part
    by_cases hcut : style.IsCut part
    · rw [style.names_memberType_of_cut hcut]
      simp [hcut]
    · rw [style.memberType_write hcut]
      exact ⟨fun hmem => ⟨hcut, NameSet.mem_ofList.mpr hmem⟩, fun h => NameSet.mem_ofList.mp h.2⟩
  rw [nameSet, Dialect.nameSet, NameSet.mem_ofList, hnames, step_tuple, List.nil_append,
    List.map_flatMap, List.flatMap_map, List.mem_flatMap]
  exact exists_congr fun part => and_congr_right fun _ => hpart part

/-- Whether the names of a tuple are those of its elements together. -/
def MemberWise (first second : TupleTree) (others : List TupleTree) : Prop :=
  ∀ name, name ∈ style.nameSet (.tuple first second others) ↔
    ∃ part ∈ first :: second :: others, name ∈ style.nameSet part

/-- The names of names, applications and tuples. A tuple gives what its elements give, except those that
are tuples without type arguments themselves. So its names are those of its elements exactly if what
such an element gives is also given by another one. -/
theorem nameSet_memberWise (first second : TupleTree) (others : List TupleTree) :
    (∀ name, style.nameSet (.named name) =
      if String.ofList name.text ∈ style.dialect.droppedWords then ∅ else .ofList [name.last]) ∧
    (∀ head arg args name, name ∈ style.nameSet (.applied head arg args) ↔
      (name = head.last ∧ head.last ∉ style.dialect.containers) ∨
        ∃ type ∈ arg :: args, name ∈ style.nameSet type) ∧
    (∀ name, name ∈ style.nameSet (.tuple first second others) ↔
      ∃ part ∈ first :: second :: others, ¬ style.IsCut part ∧ name ∈ style.nameSet part) ∧
    (style.MemberWise first second others ↔
      ∀ part ∈ first :: second :: others, style.IsCut part → ∀ name ∈ style.nameSet part,
        ∃ other ∈ first :: second :: others, ¬ style.IsCut other ∧ name ∈ style.nameSet other) := by
  have htuple := style.mem_nameSet_tuple first second others
  refine ⟨style.nameSet_named, style.mem_nameSet_applied, htuple, ?_, ?_⟩
  · intro hwise part hpart _ name hname
    exact (htuple name).mp ((hwise name).mpr ⟨part, hpart, hname⟩)
  · intro hother name
    rw [htuple]
    constructor
    · rintro ⟨part, hpart, -, hname⟩
      exact ⟨part, hpart, hname⟩
    · rintro ⟨part, hpart, hname⟩
      by_cases hcut : style.IsCut part
      · exact hother part hpart hcut name hname
      · exact ⟨part, hpart, hcut, hname⟩

/-- A pair of names. -/
def ropeLatch : TupleTree :=
  .tuple (.named { first := { chars := "Rope".toList } }) (.named { first := { chars := "Latch".toList } })
    []

/-- A name and a pair of names: only the name is found. -/
theorem not_memberWise_hamper :
    let hamper : TupleTree := .named { first := { chars := "Hamper".toList } }
    parens.write (.tuple hamper ropeLatch []) = "(Hamper, (Rope, Latch))".toList ∧
      parens.nameSet (.tuple hamper ropeLatch []) = .ofList ["Hamper"] ∧
      parens.nameSet ropeLatch = .ofList ["Rope", "Latch"] ∧
      ¬ parens.MemberWise hamper ropeLatch [] := by
  intro hamper
  have hpair : parens.nameSet ropeLatch = .ofList ["Rope", "Latch"] := by decide +kernel
  have hall : parens.nameSet (.tuple hamper ropeLatch []) = .ofList ["Hamper"] := by decide +kernel
  refine ⟨by decide, hall, hpair, fun hwise => ?_⟩
  have hrope : "Rope" ∈ parens.nameSet ropeLatch := by
    rw [hpair]
    decide
  have hfound := (hwise "Rope").mpr ⟨ropeLatch, by simp, hrope⟩
  rw [hall] at hfound
  exact absurd hfound (by decide)

end TupleStyle

end ClassDiagram
