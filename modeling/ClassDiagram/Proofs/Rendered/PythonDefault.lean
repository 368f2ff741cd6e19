import ClassDiagram.Proofs.Rendered.PythonClass
import ClassDiagram.Proofs.Scan.LogicalLine

/-!
# Written hints with literals, and default values

A hint may hold literals in double quotes, whatever these spell. The scanners that know literals pass
over it, be it in a line, in a list of parameters or in the parentheses around that list; so they do
with a default value behind it.

* `LiteralHint`: hints whose leaves are names and literals, with `LiteralHint.own`,
  `LiteralHint.staysUpTo` and `LiteralHint.level_chars` for the scanners.
* `Entry`: an entry of a parameter list, and `parameters_entryList`: such a list is cut into them.
-/

namespace ClassDiagram

namespace Python

open Text

/-! ## Hints with literals -/

/-- A literal in double quotes, which holds no double quote, backslash or blank. -/
structure Quotation where
  inner : Text
  isPlain : (inner.all fun c => isQuotable c && !isBlank c) = true := by decide

/-- A leaf of a hint: a dotted name, which may be a keyword such as `None`, or a literal. -/
inductive HintLeaf where
  | name (value : Dotted [])
  | literal (value : Quotation)

/-- A leaf as it is written. -/
def HintLeaf.text : HintLeaf → Text
  | name value => value.text
  | literal value => '"' :: (value.inner ++ ['"'])

/-- A hint, parts of which may be literals. -/
abbrev LiteralHint := Hint HintLeaf

/-- A literal holds its quotes and what stands between them. -/
theorem HintLeaf.mem_literal {value : Quotation} {c : Char} (hc : c ∈ (literal value).text) :
    c = '"' ∨ c ∈ value.inner := by
  simp only [text, List.mem_cons, List.mem_append, List.not_mem_nil, or_false] at hc
  exact hc.elim Or.inl fun hc => hc.symm

/-- What stands between quotes neither ends nor parts the literal. -/
theorem Quotation.mem_inner (value : Quotation) {c : Char} (hc : c ∈ value.inner) :
    isQuotable c = true ∧ isBlank c = false := by
  have hall := List.all_eq_true.mp value.isPlain c hc
  simpa using hall

namespace Hint

variable {Leaf : Type}

mutual

/-- The leaves of a hint. -/
def leaves : Hint Leaf → List Leaf
  | .named _ => []
  | .applied _ args => leavesOfAll args
  | .union first second others => leaves first ++ (leaves second ++ leavesOfAll others)
  | .leaf value => [value]

/-- The leaves of some hints. -/
def leavesOfAll : List (Hint Leaf) → List Leaf
  | [] => []
  | first :: rest => leaves first ++ leavesOfAll rest

end

/-- The leaves of a list of hints are those of each of them. -/
theorem leavesOfAll_eq_flatMap (types : List (Hint Leaf)) :
    leavesOfAll types = types.flatMap leaves := by
  induction types with
  | nil => rfl
  | cons first rest ih => rw [leavesOfAll, ih, List.flatMap_cons]

/-- The leaves of a generic hint are those of its arguments. -/
theorem leaves_applied (head : Dotted keywords) (args : List (Hint Leaf)) :
    (applied head args).leaves = args.flatMap leaves := leavesOfAll_eq_flatMap args

/-- The leaves of a union are those of its operands. -/
theorem leaves_union (first second : Hint Leaf) (others : List (Hint Leaf)) :
    (union first second others).leaves = (first :: second :: others).flatMap leaves := by
  rw [leaves, leavesOfAll_eq_flatMap, List.flatMap_cons, List.flatMap_cons]

end Hint

/-! ## What stays in a line -/

/-- A text over which reading passes, without a change in depth, unless a double quote follows. -/
def StaysUpTo (text : Text) : Prop :=
  ∀ depth rest, rest.head? ≠ some '"' → scan depth (text ++ rest) = prepend text (scan depth rest)

/-- Characters that mean nothing by themselves stay in their line. -/
theorem staysInLine_of_inert {text : Text}
    (h : ∀ c ∈ text, isLineChar c = true ∧ isInert c = true) : StaysInLine text := by
  induction text with
  | nil => exact .nil
  | cons c rest ih =>
      obtain ⟨hc, hrest⟩ := List.forall_mem_cons.mp h
      exact .cons hc.1 (fun depth => depthAfter_of_inert hc.2 lineBrackets depth false) (ih hrest)

/-- What stays in its line whatever follows does so too if no quote follows. -/
theorem StaysInLine.upTo {text : Text} (h : StaysInLine text) : StaysUpTo text :=
  fun depth rest _ => h depth rest

/-- Before a text that stays in its line, another one may stand that does. -/
theorem StaysInLine.append_upTo {text other : Text} (h : StaysInLine text)
    (hother : StaysUpTo other) : StaysUpTo (text ++ other) := by
  intro depth rest hrest
  rw [List.append_assoc, h, hother depth rest hrest, prepend_append]

/-- What follows shields a text if it starts with something else than a double quote. -/
theorem StaysUpTo.append_cons {text other : Text} {c : Char} (h : StaysUpTo text) (hc : c ≠ '"')
    (hother : StaysUpTo (c :: other)) : StaysUpTo (text ++ c :: other) := by
  intro depth rest hrest
  rw [List.append_assoc, List.cons_append, h depth _ (by simpa using hc), ← List.cons_append,
    hother depth rest hrest, prepend_append]

/-- What follows with no quote first keeps the line whole. -/
theorem StaysUpTo.shielded {text other : Text} {c : Char} (h : StaysUpTo text) (hc : c ≠ '"')
    (hother : StaysInLine (c :: other)) : StaysInLine (text ++ c :: other) := by
  intro depth rest
  rw [List.append_assoc, List.cons_append, h depth _ (by simpa using hc), ← List.cons_append,
    hother, prepend_append]

/-- Brackets shield what they hold. -/
theorem StaysUpTo.grouped {text : Text} {opener closer : Char}
    (hpair : closer? opener = some closer) (h : StaysUpTo text) :
    StaysInLine (opener :: (text ++ [closer])) := by
  have hchars : isLineChar opener = true ∧ isLineChar closer = true ∧ closer ≠ '"' := by
    rcases pair_cases hpair with ⟨rfl, rfl⟩ | ⟨rfl, rfl⟩ | ⟨rfl, rfl⟩ | ⟨rfl, rfl⟩ <;> decide
  intro depth rest
  obtain ⟨inside, hopen, hclose⟩ := exists_depthAfter hpair lineBrackets depth
  rw [List.cons_append, List.append_assoc, List.singleton_append, scan_cons hchars.1, hopen,
    h _ _ (by simpa using hchars.2.2), scan_cons hchars.2.1, hclose, ← prepend_append,
    ← prepend_append]
  simp

/-- Reading passes over a literal as a whole, whatever it holds. -/
theorem staysUpTo_quoted {inner : Text} (h : ∀ c ∈ inner, isQuotable c = true) :
    StaysUpTo ('"' :: (inner ++ ['"'])) := by
  by_cases hne : inner = []
  -- two quotes in a row are an empty literal, as there is no third one
  · subst hne
    intro depth rest hrest
    refine scan_literal h ?_ depth
    cases rest with
    | nil => simp
    | cons c others =>
        have hc : c ≠ '"' := by simpa using hrest
        simpa using hc.symm
  · exact (scan_quoted hne h).upTo

namespace LiteralHint

/-- A hint as it is written. -/
def written (hint : LiteralHint) : Text := Hint.text HintLeaf.text hint

/-- A generic hint is written with its arguments in square brackets. -/
theorem written_applied (head : Dotted keywords) (args : List LiteralHint) :
    written (.applied head args) =
      head.text ++ '[' :: (join [',', ' '] (args.map written) ++ [']']) := by
  rw [written, Hint.text, Hint.texts_eq_map]
  rfl

/-- A union is written with bars between its operands. -/
theorem written_union (first second : LiteralHint) (others : List LiteralHint) :
    written (.union first second others) =
      join [' ', '|', ' '] ((first :: second :: others).map written) := by
  rw [written, Hint.text, Hint.texts_eq_map]
  rfl

/-- A hint with literals is tidy. -/
theorem tidy (hint : LiteralHint) : Tidy hint.written := by
  refine Hint.tidy_of_leaves (fun leaf => ?_) hint
  cases leaf with
  | name value => exact value.tidy
  | literal value =>
      refine .word (List.cons_ne_nil _ _) fun c hc => ?_
      rcases HintLeaf.mem_literal hc with rfl | hc
      · decide
      · exact (value.mem_inner hc).2

/-- A hint starts with a name or a quote. -/
theorem exists_head (hint : LiteralHint) : ∃ c rest, hint.written = c :: rest ∧ c ≠ '=' := by
  have hident : ∀ {text : Text}, StartsIdent text → ∃ c rest, text = c :: rest ∧ c ≠ '=' := by
    rintro text ⟨c, rest, rfl, hc⟩
    exact ⟨c, rest, rfl, ne_of_identChar hc (by decide)⟩
  induction hint using Hint.induct with
  | named name => exact hident name.starts
  | applied head args _ =>
      rw [written_applied]
      exact hident (head.starts.append _)
  | union first second others ih =>
      obtain ⟨c, rest, htext, hc⟩ := ih first List.mem_cons_self
      rw [written_union, List.map_cons, List.map_cons, join, List.intercalate_cons_cons, htext]
      exact ⟨c, _, rfl, hc⟩
  | leaf value =>
      cases value with
      | name value => exact hident value.starts
      | literal value => exact ⟨'"', _, rfl, by decide⟩

/-- The pieces of a hint are level: its literals are pieces, and no comma stands outside of its
brackets. -/
theorem own (hint : LiteralHint) : Own (Text.Level lineBrackets (· ≠ ',')) hint.written := by
  have hlevel : ∀ {top : Char → Prop} (own behind : List Piece), Text.Level lineBrackets top own →
      Text.Level lineBrackets top behind → Text.Level lineBrackets top (own ++ behind) :=
    fun _ _ => Level.append
  have hdotted : ∀ {reserved : List String} (name : Dotted reserved),
      Own (Text.Level lineBrackets (· ≠ ',')) name.text := fun name => by
    refine Balanced.own (name.balanced fun c hc => ?_)
    rcases hc with hc | rfl
    · exact ne_of_identChar hc (by decide)
    · decide
  induction hint using Hint.induct with
  | named name => exact hdotted name
  | applied head args ih =>
      have hcomma : Own (Text.Level lineBrackets fun _ => True) [',', ' '] :=
        Balanced.own (.of_ordinary (forall_chars (by decide)))
      have hargs : Own (Text.Level lineBrackets fun _ => True)
          (join [',', ' '] (args.map written)) := by
        refine join_induct (fun _ => Balanced.own .nil) (fun item hitem => ?_) fun _ _ hitem hrest =>
          .append hlevel hitem (.append hlevel hcomma hrest)
        obtain ⟨arg, harg, rfl⟩ := List.mem_map.mp hitem
        exact (ih arg harg).mono fun _ h => h.mono fun _ _ => trivial
      rw [written_applied]
      exact .append hlevel (hdotted head) (.grouped rfl (by decide) (by decide) (by decide) hargs)
  | union first second others ih =>
      have hbar : Own (Text.Level lineBrackets (· ≠ ',')) [' ', '|', ' '] :=
        Balanced.own (.of_ordinary (forall_chars (by decide)))
      rw [written_union]
      refine join_induct (fun h => absurd h (by simp)) (fun item hitem => ?_) fun _ _ hitem hrest =>
        .append hlevel hitem (.append hlevel hbar hrest)
      obtain ⟨operand, hoperand, rfl⟩ := List.mem_map.mp hitem
      exact ih operand hoperand
  | leaf value =>
      cases value with
      | name value => exact hdotted value
      | literal value => exact own_quoted fun c hc => (value.mem_inner hc).1

/-- Reading a line passes over a hint. -/
theorem staysUpTo (hint : LiteralHint) : StaysUpTo hint.written := by
  have hdotted : ∀ {reserved : List String} (name : Dotted reserved), StaysInLine name.text :=
    fun name => staysInLine_word (name.spelled (by decide))
  induction hint using Hint.induct with
  | named name => exact (hdotted name).upTo
  | applied head args ih =>
      have hcomma : StaysInLine [',', ' '] :=
        .cons (by decide) (fun _ => rfl) (.cons (by decide) (fun _ => rfl) .nil)
      have hargs : StaysUpTo (join [',', ' '] (args.map written)) := by
        refine join_induct (fun _ => StaysInLine.nil.upTo) (fun item hitem => ?_)
          fun _ _ hitem hrest => hitem.append_cons (by decide) (hcomma.append_upTo hrest)
        obtain ⟨arg, harg, rfl⟩ := List.mem_map.mp hitem
        exact ih arg harg
      rw [written_applied]
      exact ((hdotted head).append (hargs.grouped rfl)).upTo
  | union first second others ih =>
      have hbar : StaysInLine [' ', '|', ' '] := .cons (by decide) (fun _ => rfl)
        (.cons (by decide) (fun _ => rfl) (.cons (by decide) (fun _ => rfl) .nil))
      rw [written_union]
      refine join_induct (fun h => absurd h (by simp)) (fun item hitem => ?_)
        fun _ _ hitem hrest => hitem.append_cons (by decide) (hbar.append_upTo hrest)
      obtain ⟨operand, hoperand, rfl⟩ := List.mem_map.mp hitem
      exact ih operand hoperand
  | leaf value =>
      cases value with
      | name value => exact (hdotted value).upTo
      | literal value => exact staysUpTo_quoted fun c hc => (value.mem_inner hc).1

/-- Where quotes are characters like others, a hint is level if its literals hold neither brackets
nor equals signs. -/
theorem level_chars (hint : LiteralHint)
    (hinert : ∀ value, .literal value ∈ hint.leaves → ∀ c ∈ value.inner, isInert c = true) :
    Text.Level lineBrackets (fun _ => True) (hint.written.map Piece.char) := by
  have hdotted : ∀ {reserved : List String} (name : Dotted reserved),
      Text.Level lineBrackets (fun _ => True) (name.text.map Piece.char) := fun name =>
    (name.balanced fun _ _ => trivial).level_chars
  -- read a character at a time, a literal is no piece, so its inside must be inert as well
  have hjoined : ∀ {separator : Text} {types : List LiteralHint},
      (∀ c ∈ separator, isInert c = true) →
      (∀ type ∈ types, Text.Level lineBrackets (fun _ => True) (type.written.map Piece.char)) →
      Text.Level lineBrackets (fun _ => True)
        ((join separator (types.map written)).map Piece.char) := by
    intro separator types hseparator htypes
    refine join_induct
      (motive := fun text => Text.Level lineBrackets (fun _ => True) (text.map Piece.char))
      (fun _ => .nil) (fun item hitem => ?_) fun item rest hitem hrest => ?_
    · obtain ⟨type, htype, rfl⟩ := List.mem_map.mp hitem
      exact htypes type htype
    · rw [List.map_append, List.map_append]
      exact hitem.append
        ((Level.of_inert fun c hc => ⟨hseparator c hc, trivial⟩).append hrest)
  induction hint using Hint.induct with
  | named name => exact hdotted name
  | applied head args ih =>
      rw [Hint.leaves_applied] at hinert
      rw [written_applied, List.map_append, List.map_cons, List.map_append]
      refine (hdotted head).append (.group rfl (by decide) trivial trivial ?_ .nil)
      exact hjoined (forall_chars (by decide)) fun arg harg => ih arg harg fun value hvalue =>
        hinert value (List.mem_flatMap.mpr ⟨arg, harg, hvalue⟩)
  | union first second others ih =>
      rw [Hint.leaves_union] at hinert
      rw [written_union]
      exact hjoined (forall_chars (by decide)) fun operand hoperand =>
        ih operand hoperand fun value hvalue =>
          hinert value (List.mem_flatMap.mpr ⟨operand, hoperand, hvalue⟩)
  | leaf value =>
      cases value with
      | name value => exact hdotted value
      | literal value =>
          refine .of_inert fun c hc => ⟨?_, trivial⟩
          rcases HintLeaf.mem_literal hc with rfl | hc
          · decide
          · exact hinert value List.mem_cons_self c hc

end LiteralHint

/-! ## Entries of a parameter list -/

/-- A character of an entry before its hint: one of a name, a star or a slash. -/
def isEntryChar (c : Char) : Bool := isIdentChar c || c == '*' || c == '/'

/-- An entry of a parameter list: a name, stars or a slash, with a hint and a number as its default
value if it has them. -/
structure Entry where
  front : Text
  hint : Option LiteralHint := none
  value : Option Numeral := none
  isFront : (!front.isEmpty && front.all isEntryChar) = true := by decide

/-- A hint as it is written behind a name. -/
def hintText : Option LiteralHint → Text
  | none => []
  | some hint => ':' :: ' ' :: hint.written

/-- A default value as it is written behind a name or a hint. -/
def defaultText : Option Numeral → Text
  | none => []
  | some value => ' ' :: '=' :: ' ' :: value.chars

namespace Entry

/-- An entry as it is written. -/
def text (entry : Entry) : Text := entry.front ++ (hintText entry.hint ++ defaultText entry.value)

theorem front_ne_nil (entry : Entry) : entry.front ≠ [] := by
  have hfront := entry.isFront
  rw [Bool.and_eq_true] at hfront
  simpa using hfront.1

/-- The front of an entry is a name with its stars, or a sign. -/
theorem mem_front (entry : Entry) {c : Char} (hc : c ∈ entry.front) :
    isIdentChar c = true ∨ c = '*' ∨ c = '/' := by
  have hfront := entry.isFront
  rw [Bool.and_eq_true, List.all_eq_true] at hfront
  have hchar := hfront.2 c hc
  simp only [isEntryChar, Bool.or_eq_true, beq_iff_eq, or_assoc] at hchar
  exact hchar

/-- An entry is tidy, with or without a hint and a default. -/
theorem tidy (entry : Entry) : Tidy entry.text := by
  obtain ⟨front, hint, value, isFront⟩ := entry
  have hfront : Tidy front := by
    refine .word (front_ne_nil ⟨front, hint, value, isFront⟩) fun c hc => ?_
    rcases mem_front ⟨front, hint, value, isFront⟩ hc with hc | rfl | rfl
    · exact not_blank_of_identChar hc
    · decide
    · decide
  have hnumber : ∀ number : Numeral, Tidy number.chars := fun number =>
    .word number.ne_nil fun c hc => not_blank_of_identChar (number.identChar c hc)
  have hsign : Tidy ['='] := .word (by decide) (forall_chars (by decide))
  have hcolon : ∀ c ∈ [':'], isBlank c = false := forall_chars (by decide)
  have hhinted : Tidy (front ++ hintText hint) := by
    cases hint with
    | none => rwa [hintText, List.append_nil]
    | some hint =>
        have hall := (hfront.append (.word (by decide) hcolon)).spaced hint.tidy
        rwa [List.append_assoc] at hall
  rw [text, ← List.append_assoc]
  cases value with
  | none => rwa [defaultText, List.append_nil]
  | some value => exact hhinted.spaced (hsign.spaced (hnumber value))

/-- The pieces of an entry are level but for its assignment, and no comma stands outside of its
brackets. -/
theorem own (entry : Entry) : Own (Assigning lineBrackets (· ≠ ',')) entry.text := by
  have hlevel : ∀ (own behind : List Piece), Text.Level lineBrackets (· ≠ ',') own →
      Text.Level lineBrackets (· ≠ ',') behind →
      Text.Level lineBrackets (· ≠ ',') (own ++ behind) :=
    fun _ _ => Level.append
  have hplain : ∀ {text : Text}, (∀ c ∈ text, isOrdinary c = true ∧ c ≠ ',') →
      Own (Text.Level lineBrackets (· ≠ ',')) text := fun h => Balanced.own (.of_ordinary h)
  have hfront : Own (Text.Level lineBrackets (· ≠ ',')) entry.front := by
    refine hplain fun c hc => ?_
    rcases entry.mem_front hc with hc | rfl | rfl
    · exact ⟨isOrdinary_of_identChar hc, ne_of_identChar hc (by decide)⟩
    · decide
    · decide
  have hhint : Own (Text.Level lineBrackets (· ≠ ',')) (hintText entry.hint) := by
    have hcolon : Own (Text.Level lineBrackets (· ≠ ',')) [':', ' '] :=
      hplain (forall_chars (by decide))
    cases entry.hint with
    | none => exact hplain (List.forall_mem_nil _)
    | some hint => exact .append hlevel hcolon hint.own
  -- the default is the only assignment, and stands behind the hint
  rw [text, ← List.append_assoc]
  cases entry.value with
  | none =>
      rw [defaultText, List.append_nil]
      exact (Own.append hlevel hfront hhint).mono fun _ => .level
  | some value =>
      have hnumber : Own (Text.Level lineBrackets (· ≠ ',')) value.chars := hplain fun c hc =>
        ⟨isOrdinary_of_identChar (value.identChar c hc),
          ne_of_identChar (value.identChar c hc) (by decide)⟩
      have hspace : Own (Text.Level lineBrackets (· ≠ ',')) [' '] :=
        hplain (forall_chars (by decide))
      have hall := (Own.append hlevel (Own.append hlevel hfront hhint) hspace).assign
        (hnumber.mono fun _ => .level)
      rwa [List.append_assoc, List.singleton_append] at hall

/-- Reading a line passes over an entry. -/
theorem staysUpTo (entry : Entry) : StaysUpTo entry.text := by
  have hfront : StaysInLine entry.front := by
    have hchars : ∀ c ∈ entry.front, isLineChar c = true ∧ isInert c = true := by
      intro c hc
      rcases entry.mem_front hc with hc | rfl | rfl
      · have hord := isOrdinary_of_identChar hc
        exact ⟨isLineChar_of_ordinary hord (ne_of_identChar hc (by decide))
          (ne_of_identChar hc (by decide)) (ne_of_identChar hc (by decide)),
          isInert_of_ordinary hord⟩
      · decide
      · decide
    exact staysInLine_of_inert hchars
  have hvalue : StaysInLine (defaultText entry.value) := by
    cases entry.value with
    | none => exact .nil
    | some value =>
        exact .cons (by decide) (fun _ => rfl) (.cons (by decide) (fun _ => rfl)
          (.cons (by decide) (fun _ => rfl)
            (staysInLine_word (.of_letters value.identChar))))
  refine hfront.append_upTo ?_
  cases entry.hint with
  | none => exact hvalue.upTo
  | some hint =>
      have hhint : StaysUpTo (hintText (some hint)) :=
        StaysInLine.append_upTo (.cons (by decide) (fun _ => rfl)
          (.cons (by decide) (fun _ => rfl) .nil)) hint.staysUpTo
      -- a hint may end in a quote, which the equals sign of a default shields
      cases hdefault : entry.value with
      | none => rwa [defaultText, List.append_nil]
      | some value =>
          rw [hdefault] at hvalue
          exact hhint.append_cons (by decide) hvalue.upTo

end Entry

/-- Entries as they are written in a parameter list. -/
def entryList (entries : List Entry) : Text := join [',', ' '] (entries.map Entry.text)

/-- The parameters of a written list are those of its entries. -/
theorem parameters_entryList (entries : List Entry) :
    parameters (entryList entries) = entries.filterMap fun entry => parameter? entry.text := by
  have hsplit : splitTop ([] ++ entryList entries) (· == ',') false = entries.map Entry.text := by
    refine splitTop_uncut (by decide) (by decide) (forall_chars (by decide)) ?_ (by simp)
    intro item hitem
    obtain ⟨entry, _, rfl⟩ := List.mem_map.mp hitem
    exact ⟨entry.own.uncut (fun c hc => beq_eq_false_iff_ne.mpr hc) (by decide) (by decide),
      entry.tidy⟩
  rw [List.nil_append] at hsplit
  rw [parameters, hsplit, List.filterMap_map]
  rfl

/-- In a list, commas stand outside of brackets as well. -/
theorem own_entryList (entries : List Entry) :
    Own (Assigning lineBrackets fun _ => True) (entryList entries) := by
  have happend : ∀ (own behind : List Piece), Assigning lineBrackets (fun _ => True) own →
      Assigning lineBrackets (fun _ => True) behind →
      Assigning lineBrackets (fun _ => True) (own ++ behind) := fun _ _ => Assigning.append
  have hcomma : Own (Assigning lineBrackets fun _ => True) [',', ' '] :=
    (Balanced.own (.of_ordinary (forall_chars (by decide)))).mono fun _ => .level
  refine join_induct (fun _ => (Balanced.own .nil).mono fun _ => .level) (fun item hitem => ?_)
    fun _ _ hitem hrest => .append happend hitem (.append happend hcomma hrest)
  obtain ⟨entry, _, rfl⟩ := List.mem_map.mp hitem
  exact entry.own.mono fun _ h => h.mono fun _ _ => trivial

/-- A list of entries stays in its line if no quote follows. -/
theorem staysUpTo_entryList (entries : List Entry) : StaysUpTo (entryList entries) := by
  have hcomma : StaysInLine [',', ' '] :=
    .cons (by decide) (fun _ => rfl) (.cons (by decide) (fun _ => rfl) .nil)
  refine join_induct (fun _ => StaysInLine.nil.upTo) (fun item hitem => ?_)
    fun _ _ hitem hrest => hitem.append_cons (by decide) (hcomma.append_upTo hrest)
  obtain ⟨entry, _, rfl⟩ := List.mem_map.mp hitem
  exact entry.staysUpTo

end Python

end ClassDiagram
