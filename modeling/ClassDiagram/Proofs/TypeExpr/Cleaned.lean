import ClassDiagram.Proofs.TypeExpr.Written
import Mathlib.Data.List.Induction

/-!
# Cleaning a written type expression

Before an expression is taken apart, it is cleaned by edits of its whole text: quotes and marks of
nullability are removed wherever they stand, dropped words as well, and array brackets at the end.
On a written expression these edits follow its tree.

* `TypeTree.edits_write`: without quotes and marks an expression is plain.
* `TypeTree.keeps_plain`: no word of an expression is dropped.
* `TypeTree.bare`, `TypeTree.dropArrays_plain`: an expression without the array brackets at its end.
* `TypeTree.clean_write`: what an expression is cleaned to.
-/

namespace ClassDiagram

open Text

/-! ## Quotes and marks -/

namespace Dialect

/-- A text without quotes and without marks of nullability and pointers. -/
def edit (dialect : Dialect) (text : Text) : Text :=
  (unquote dialect.readsQuoted text).filter fun c => !(c == '?' || c == '!' || c == '*')

/-- Whether a character is no quote and no mark. -/
def isKept (c : Char) : Bool := !(Literal.isQuote c || (c == '?' || c == '!' || c == '*'))

/-- Wherever a text stands, `edited` is left of it. -/
def Edits (dialect : Dialect) (text edited : Text) : Prop :=
  ∀ rest, dialect.edit (text ++ rest) = edited ++ dialect.edit rest

variable {dialect : Dialect} {text edited other otherEdited : Text}

/-- Outside of quotes, the signs that say a type may be absent or pointed at are dropped. -/
theorem edit_cons {c : Char} (hquote : Literal.isQuote c = false) (rest : Text) :
    dialect.edit (c :: rest) =
      if c == '?' || c == '!' || c == '*' then dialect.edit rest else c :: dialect.edit rest := by
  unfold edit
  rw [unquote, if_neg (by simp [hquote]), List.filter_cons]
  split <;> split <;> simp_all

namespace Edits

theorem nil : dialect.Edits [] [] := fun _ => rfl

/-- What a text is edited to when nothing follows it. -/
theorem edit_eq (h : dialect.Edits text edited) : dialect.edit text = edited := by
  have hempty : dialect.edit [] = [] := by rw [edit, unquote]; rfl
  have hall := h []
  rwa [hempty, List.append_nil, List.append_nil] at hall

/-- Editing goes from left to right, a piece at a time. -/
theorem append (h : dialect.Edits text edited) (hother : dialect.Edits other otherEdited) :
    dialect.Edits (text ++ other) (edited ++ otherEdited) := by
  intro rest
  rw [List.append_assoc, h, hother, List.append_assoc]

/-- A text of kept characters stays as it is. -/
theorem kept (h : ∀ c ∈ text, isKept c = true) : dialect.Edits text text := by
  intro rest
  induction text with
  | nil => rfl
  | cons c tail ih =>
      have hc := h c List.mem_cons_self
      simp only [isKept, Bool.not_eq_true', Bool.or_eq_false_iff] at hc
      rw [List.cons_append, edit_cons hc.1, if_neg (by simp [hc.2]),
        ih fun d hd => h d (List.mem_cons_of_mem _ hd)]
      rfl

/-- The question mark of a nullable type is dropped. -/
theorem nullable : dialect.Edits ['?'] [] := fun rest => edit_cons (by decide) rest

/-- Only the quotes are removed around a quoted type. -/
theorem quoted (hquoted : dialect.readsQuoted = true) (h : ∀ c ∈ text, isKept c = true) :
    dialect.Edits ('"' :: (text ++ ['"'])) text := by
  have hquote : '"' ∉ text := fun hmem => absurd (h _ hmem) (by decide)
  have hfilter : text.filter (fun c => !(c == '?' || c == '!' || c == '*')) = text := by
    refine List.filter_eq_self.mpr fun c hc => ?_
    have := h c hc
    simp only [isKept, Bool.not_eq_true', Bool.or_eq_false_iff] at this
    simp [this.2]
  intro rest
  have htext : '"' :: (text ++ ['"']) ++ rest = '"' :: (text ++ '"' :: rest) := by simp
  unfold edit
  rw [htext, unquote, if_pos ⟨by decide, by simp⟩, hquoted, if_pos rfl, upTo_append_mark hquote,
    past_append_mark hquote, List.filter_append, hfilter]

/-- A list is edited item by item. -/
theorem join {Item : Type} {items : List Item} {separator : Text} {write plain : Item → Text}
    (hitems : ∀ item ∈ items, dialect.Edits (write item) (plain item))
    (hsep : ∀ c ∈ separator, isKept c = true) :
    dialect.Edits (join separator (items.map write)) (Text.join separator (items.map plain)) := by
  induction items with
  | nil => exact .nil
  | cons first rest ih =>
      have hfirst := hitems first List.mem_cons_self
      cases rest with
      | nil => simpa [Text.join] using hfirst
      | cons second others =>
          have hrest := ih fun item hitem => hitems item (List.mem_cons_of_mem _ hitem)
          simp only [List.map_cons, Text.join, List.intercalate_cons_cons] at hrest ⊢
          exact (hfirst.append (.kept hsep)).append hrest

end Edits

end Dialect

namespace TypeTree

open Dialect

variable {dialect : Dialect} (hregular : dialect.Regular)
include hregular

omit hregular in
/-- Editing leaves names alone. -/
theorem isKept_of_nameChar {c : Char} (h : isDollarNameChar c = true) : isKept c = true := by
  have hne : ∀ d, isDollarNameChar d = false → (c == d) = false := fun d hd =>
    beq_eq_false_iff_ne.mpr (ne_of_class h hd)
  simp [isKept, not_quote_of_nameChar h, hne '?' (by decide), hne '!' (by decide),
    hne '*' (by decide)]

/-- Nothing is dropped from the plain text of a type. -/
theorem kept_plain (type : TypeTree dialect) : ∀ c ∈ type.plain, isKept c = true :=
  (type.spelled hregular).forall_mem (fun _ => isKept_of_nameChar) (forall_chars (by decide))

omit hregular in
/-- Parentheses stay around what they stand around. -/
theorem edits_paren {text edited : Text} (h : dialect.Edits text edited) (inParens : Bool) :
    dialect.Edits (paren inParens text) (paren inParens edited) := by
  have hsign : ∀ {sign : Char}, isKept sign = true → dialect.Edits [sign] [sign] :=
    fun hkept => .kept (by simpa using hkept)
  cases inParens with
  | true => exact (hsign (by decide)).append (h.append (hsign (by decide)))
  | false => exact h

/-- Without quotes and marks an expression is plain. -/
theorem edits_write (type : TypeTree dialect) (marked : Bool) :
    dialect.Edits (write marked type) type.plain := by
  have hsign : ∀ {sign : Char}, isKept sign = true → dialect.Edits [sign] [sign] :=
    fun hkept => .kept (by simpa using hkept)
  have hbrackets := hregular.brackets (isKept · = true) (forall_chars (by decide))
  have hdotted : ∀ name : DottedName dialect, dialect.Edits name.text name.text :=
    fun name => .kept (kept_plain hregular (.named name))
  induction type using induct generalizing marked with
  | named name => exact hdotted name
  | applied head first others ih =>
      have hargs : dialect.Edits (join [',', ' '] ((first :: others).map (write marked)))
          (join [',', ' '] ((first :: others).map plain)) :=
        .join (fun arg harg => ih arg harg marked) (forall_chars (by decide))
      rw [write_applied, plain_applied]
      exact (hdotted head).append
        ((hsign hbrackets.1).append (hargs.append (hsign hbrackets.2)))
  | nullable inner angles ih =>
      rw [write_nullable, plain_nullable]
      -- the mark is written only where marks are, and dropped in either case
      cases marked with
      | true =>
          have hall := (ih true).append Edits.nullable
          rwa [List.append_nil] at hall
      | false => simpa using ih false
  | array element commas angles ih =>
      rw [write_array, plain_array]
      have hkept : ∀ c ∈ ['[', ',', ']'], isKept c = true := forall_chars (by decide)
      exact (ih marked).append (.kept fun c hc => hkept c (mem_arrayBrackets hc))
  | joined inParens sign left right separates ihleft ihright =>
      have hmiddle : dialect.Edits [' ', sign, ' '] [' ', sign, ' '] := by
        rcases hregular.alternatives _ separates with rfl | rfl <;>
          exact .kept (forall_chars (by decide))
      rw [plain_joined]
      exact edits_paren ((ihleft marked).append (hmiddle.append (ihright marked))) inParens
  | function inParens params result angles ihparams ihresult =>
      have hparams : dialect.Edits (join [',', ' '] (params.map (writeParam marked)))
          (join [',', ' '] (params.map (writeParam false))) := by
        refine .join (fun param hparam => ?_) (forall_chars (by decide))
        obtain ⟨name, type⟩ := param
        have hname : dialect.Edits name.chars name.chars :=
          .kept fun c hc => isKept_of_nameChar (name.nameChar c hc)
        have hcolon : dialect.Edits [':', ' '] [':', ' '] := .kept (forall_chars (by decide))
        exact hname.append (hcolon.append (ihparams _ hparam marked))
      have harrow : dialect.Edits [')', ' ', '=', '>', ' '] [')', ' ', '=', '>', ' '] :=
        .kept (forall_chars (by decide))
      rw [write_function, plain_function]
      refine edits_paren ?_ inParens
      have hall := (hsign (by decide : isKept '(' = true)).append
        (hparams.append (harrow.append (ihresult marked)))
      simpa [lead, paramGroup] using hall
  | quoted inner squares ih =>
      rw [write_quoted, plain_quoted]
      -- a quoted name stands for the type that is written in the quotes
      split
      · exact .quoted (by simp [Dialect.readsQuoted, squares]) (kept_plain hregular inner)
      · exact ih false

end TypeTree

/-! ## Dropped words -/

/-- A character that does not separate joins the segments beside it. -/
theorem Text.cut_append_other (separates : Char → Bool) {c : Char} (hc : separates c = false)
    (before after : Text) :
    ∃ fronts last first rest, cut separates before = fronts ++ [last] ∧
      cut separates after = first :: rest ∧
      cut separates (before ++ c :: after) = fronts ++ (last ++ c :: first) :: rest := by
  obtain ⟨first, rest, hafter⟩ := List.exists_cons_of_ne_nil (cut_ne_nil separates after)
  induction before with
  | nil =>
      refine ⟨[], [], first, rest, rfl, hafter, ?_⟩
      rw [List.nil_append, cut, if_neg (by simp [hc]), hafter]
      rfl
  | cons d tail ih =>
      obtain ⟨fronts, last, first, rest, htail, hafter, hall⟩ := ih
      rw [List.cons_append, cut, cut, hall, htail]
      by_cases hd : separates d = true
      · rw [if_pos hd, if_pos hd]
        exact ⟨[] :: fronts, last, first, rest, rfl, hafter, rfl⟩
      · rw [if_neg hd, if_neg hd]
        -- the character goes to the first segment, which is the last one if there is no other
        cases fronts with
        | nil => exact ⟨[], d :: last, first, rest, rfl, hafter, rfl⟩
        | cons front others =>
            exact ⟨(d :: front) :: others, last, first, rest, rfl, hafter, rfl⟩

/-- Whether a dialect drops no word of a text. -/
def Dialect.Keeps (dialect : Dialect) (text : Text) : Prop :=
  ∀ word ∈ text.cut (· == ' '), String.ofList word ∉ dialect.droppedWords

namespace Dialect.Keeps

variable {dialect : Dialect} {text other : Text}

/-- No word of the text is dropped. -/
theorem dropWords (h : dialect.Keeps text) : dialect.dropWords text = text := by
  have hfilter : (text.cut (· == ' ')).filter
      (fun word => !dialect.droppedWords.contains (String.ofList word)) = text.cut (· == ' ') :=
    List.filter_eq_self.mpr fun word hword => by simpa using h word hword
  rw [Dialect.dropWords, hfilter, join_cut]

/-- If no word of two texts is dropped, none is with a space between the texts. -/
theorem spaced (h : dialect.Keeps text) (hother : dialect.Keeps other) :
    dialect.Keeps (text ++ ' ' :: other) := by
  intro word hword
  rw [cut_append_cons (by decide)] at hword
  exact (List.mem_append.mp hword).elim (h word) (hother word)

variable (hregular : dialect.Regular)
include hregular

/-- A dropped word is made of word characters. -/
theorem not_dropped {word : Text} {c : Char} (hc : c ∈ word) (hword : isWordChar c = false) :
    String.ofList word ∉ dialect.droppedWords := by
  intro hmem
  have hall := (hregular.dropped _ hmem).2
  rw [String.toList_ofList, List.all_eq_true] at hall
  exact ne_of_class (hall c hc) hword rfl

/-- There is no word to drop in a text of signs. -/
theorem of_signs (h : ∀ c ∈ text, isWordChar c = false) : dialect.Keeps text := by
  intro word hword
  cases word with
  | nil => exact fun hmem => (hregular.dropped _ hmem).1 rfl
  | cons c rest =>
      exact not_dropped hregular List.mem_cons_self (h c (mem_of_mem_cut hword List.mem_cons_self))

/-- A sign between two texts does not turn their words into dropped ones. -/
theorem signed (h : dialect.Keeps text) (hother : dialect.Keeps other) {sign : Char}
    (hsign : isWordChar sign = false) : dialect.Keeps (text ++ sign :: other) := by
  by_cases hspace : sign = ' '
  · rw [hspace]
    exact h.spaced hother
  · obtain ⟨fronts, last, first, rest, htext, hafter, hall⟩ :=
      cut_append_other (· == ' ') (beq_eq_false_iff_ne.mpr hspace) text other
    intro word hword
    rw [hall] at hword
    rcases List.mem_append.mp hword with hword | hword
    · exact h word (by rw [htext]; exact List.mem_append_left _ hword)
    · rcases List.mem_cons.mp hword with rfl | hword
      · exact not_dropped hregular (List.mem_append_right _ List.mem_cons_self) hsign
      · exact hother word (by rw [hafter]; exact List.mem_cons_of_mem _ hword)

theorem nil : dialect.Keeps [] := of_signs hregular (by simp)

theorem join {items : List Text} (h : ∀ item ∈ items, dialect.Keeps item) :
    dialect.Keeps (Text.join [',', ' '] items) := by
  refine join_induct (fun _ => nil hregular) h fun item rest hitem hrest => ?_
  exact hitem.signed hregular ((nil hregular).spaced hrest) (by decide)

end Dialect.Keeps

namespace TypeTree

variable {dialect : Dialect} (hregular : dialect.Regular)
include hregular

open Dialect

/-- No part of a dotted name is a dropped word. -/
theorem keeps_dotted (name : DottedName dialect) : dialect.Keeps name.text := by
  have hspace : ∀ c ∈ name.text, (c == ' ') = false := by
    intro c hc
    refine beq_eq_false_iff_ne.mpr fun heq => ?_
    exact name.not_mem (by decide) (by decide) (heq ▸ hc)
  intro word hword
  rw [cut_of_none hspace, List.mem_singleton] at hword
  subst hword
  cases hothers : name.others with
  | nil =>
      have hkept := name.kept name.first List.mem_cons_self
      simpa [DottedName.text, DottedName.segments, hothers, Text.join, Identifier.name] using hkept
  | cons second rest =>
      refine Keeps.not_dropped hregular (c := '.') ?_ (by decide)
      simp [DottedName.text, DottedName.segments, hothers, Text.join, List.intercalate_cons_cons]

/-- Parentheses add no words. -/
theorem keeps_paren {text : Text} (h : dialect.Keeps text) (inParens : Bool) :
    dialect.Keeps (paren inParens text) := by
  cases inParens with
  | true =>
      have hclosed := h.signed hregular (.nil hregular) (show isWordChar ')' = false by decide)
      exact (Keeps.nil hregular).signed hregular hclosed (show isWordChar '(' = false by decide)
  | false => exact h

/-- The name of a parameter may be a dropped word, but for the colon behind it. -/
theorem keeps_paramName (name : Identifier) : dialect.Keeps (name.chars ++ [':']) := by
  have hspace : ∀ c ∈ name.chars ++ [':'], (c == ' ') = false := by
    refine List.forall_mem_append.mpr ⟨fun c hc => ?_, by simp⟩
    exact beq_eq_false_iff_ne.mpr (ne_of_class (name.nameChar c hc) (by decide))
  intro word hword
  rw [cut_of_none hspace, List.mem_singleton] at hword
  rw [hword]
  exact Keeps.not_dropped hregular (List.mem_append_right _ List.mem_cons_self) (by decide)

/-- No word of an expression is dropped: a word that is no name has a sign in it. -/
theorem keeps_plain (type : TypeTree dialect) : dialect.Keeps type.plain := by
  have hempty : dialect.Keeps [] := .nil hregular
  have hbrackets := hregular.brackets (isWordChar · = false) (forall_chars (by decide))
  induction type using induct with
  | named name => exact keeps_dotted hregular name
  | applied head first others ih =>
      have hargs : dialect.Keeps (join [',', ' '] ((first :: others).map plain)) := by
        refine .join hregular fun item hitem => ?_
        obtain ⟨arg, harg, rfl⟩ := List.mem_map.mp hitem
        exact ih arg harg
      rw [plain_applied]
      exact (keeps_dotted hregular head).signed hregular
        (hargs.signed hregular hempty hbrackets.2) hbrackets.1
  | nullable inner angles ih => rwa [plain_nullable]
  | array element commas angles ih =>
      have hcommas : dialect.Keeps (List.replicate commas ',') := by
        refine .of_signs hregular fun c hc => ?_
        rw [List.eq_of_mem_replicate hc]
        decide
      rw [plain_array]
      exact ih.signed hregular (hcommas.signed hregular hempty (by decide)) (by decide)
  | joined inParens sign left right separates ihleft ihright =>
      have hsign : dialect.Keeps [sign] := by
        refine .of_signs hregular fun c hc => ?_
        rw [List.mem_singleton.mp hc]
        rcases hregular.alternatives _ separates with rfl | rfl <;> decide
      rw [plain_joined]
      exact keeps_paren hregular (ihleft.spaced (hsign.spaced ihright)) inParens
  | function inParens params result angles ihparams ihresult =>
      have hlist : dialect.Keeps (join [',', ' '] (params.map (writeParam false))) := by
        refine .join hregular fun item hitem => ?_
        obtain ⟨⟨name, type⟩, hparam, rfl⟩ := List.mem_map.mp hitem
        have hall := (keeps_paramName hregular name).spaced (ihparams _ hparam)
        rwa [List.append_assoc] at hall
      have harrow : dialect.Keeps ['=', '>'] := .of_signs hregular (forall_chars (by decide))
      rw [plain_function]
      refine keeps_paren hregular ?_ inParens
      -- the parameters stand between signs, and the arrow between spaces
      have hparams := (hlist.signed hregular hempty (show isWordChar ')' = false by decide))
      have hopened := hempty.signed hregular hparams (show isWordChar '(' = false by decide)
      have hall := hopened.spaced (harrow.spaced ihresult)
      simpa [lead, paramGroup] using hall
  | quoted inner squares ih => rwa [plain_quoted]

end TypeTree

/-! ## Array brackets -/

namespace Text

/-- What ends in no closing bracket is no array. -/
theorem beforeArray?_concat (front : Text) {c : Char} (hc : c ≠ ']') :
    beforeArray? (front ++ [c]) = none := by
  unfold beforeArray?
  rw [List.reverse_append, List.reverse_singleton, List.singleton_append]
  split
  · rename_i heq
    exact absurd (List.cons.inj heq).1 hc
  · rfl

/-- What holds no closing bracket is no array. -/
theorem beforeArray?_of_not_mem {text : Text} (h : ']' ∉ text) : beforeArray? text = none := by
  unfold beforeArray?
  split
  · rename_i heq
    exact absurd (List.mem_reverse.mp (heq ▸ List.mem_cons_self)) h
  · rfl

/-- Brackets that hold something are those of no array. -/
theorem beforeArray?_filled (front : Text) {c : Char} (hblank : isBlank c = false) (hcomma : c ≠ ',')
    (hopen : c ≠ '[') : beforeArray? (front ++ [c] ++ [']']) = none := by
  have hstays : (c :: front.reverse).dropWhile (fun d => isBlank d || d == ',') =
      c :: front.reverse :=
    List.dropWhile_cons_of_neg (by simp [hblank, hcomma])
  unfold beforeArray?
  simp only [List.reverse_append, List.reverse_singleton, List.singleton_append, hstays]
  split
  · rename_i heq
    exact absurd (List.cons.inj heq).1 hopen
  · rfl

/-- If there are no array brackets at the end, none are dropped. -/
theorem dropArrays_of_none {text : Text} (h : isGroup '[' text = true ∨ beforeArray? text = none) :
    dropArrays text = text := by
  unfold dropArrays
  split
  · rfl
  · rename_i hgroup
    split
    · rename_i before hbefore
      exact absurd (hbefore.symm.trans (h.resolve_left hgroup)) (by simp)
    · rfl

end Text

namespace Dialect

variable {dialect : Dialect} {text : Text} (hkept : ∀ c ∈ text, isKept c = true)
include hkept

/-- A text without anything to remove is clean. -/
theorem clean_of_kept {expr : Text} (hstrip : strip expr = text) (htidy : Tidy text)
    (hwords : dialect.Keeps text) (harrays : isGroup '[' text = true ∨ beforeArray? text = none) :
    dialect.clean expr = text := by
  show (dialect.dropWords (dialect.edit (strip expr))).strip.dropArrays = text
  rw [hstrip, (Edits.kept hkept).edit_eq, hwords.dropWords, htidy.strip, dropArrays_of_none harrays]

/-- A word that is dropped leaves nothing. -/
theorem clean_of_dropped (htidy : Tidy text) (hspace : ' ' ∉ text)
    (h : String.ofList text ∈ dialect.droppedWords) : dialect.clean text = [] := by
  have hword : text.cut (· == ' ') = [text] :=
    cut_of_none fun c hc => beq_eq_false_iff_ne.mpr fun heq => hspace (heq ▸ hc)
  have hdropped : dialect.dropWords text = [] := by
    rw [dropWords, hword, List.filter_cons_of_neg (by simpa using h)]
    rfl
  show (dialect.dropWords (dialect.edit (strip text))).strip.dropArrays = []
  rw [htidy.strip, (Edits.kept hkept).edit_eq, hdropped]
  exact List.eq_nil_of_length_eq_zero (Nat.le_zero.mp (length_dropArrays_le []))

end Dialect

namespace TypeTree

variable {dialect : Dialect}

/-- The brackets of an array are found at its end. -/
theorem beforeArray?_brackets (front : Text) (commas : Nat) :
    beforeArray? (front ++ arrayBrackets commas) = some front := by
  have hdrop : (List.replicate commas ',' ++ '[' :: front.reverse).dropWhile
      (fun c => isBlank c || c == ',') = '[' :: front.reverse := by
    rw [List.dropWhile_append_of_pos (fun c hc => by simp [List.eq_of_mem_replicate hc])]
    exact List.dropWhile_cons_of_neg (by decide)
  unfold beforeArray?
  simp [arrayBrackets, hdrop]

/-- Array brackets are written right behind the element's type. -/
theorem tidy_append_brackets {text : Text} (h : Tidy text) (brackets : List Nat) :
    Tidy (text ++ brackets.flatMap arrayBrackets) := by
  induction brackets generalizing text with
  | nil => rwa [List.flatMap_nil, List.append_nil]
  | cons commas others ih =>
      rw [List.flatMap_cons, ← List.append_assoc]
      exact ih (h.append (tidy_brackets commas))

/-- Array brackets at the end are dropped, up to what ends in no array brackets. -/
theorem dropArrays_brackets {text : Text} (htidy : Tidy text) (hhead : text.head? ≠ some '[')
    (hend : beforeArray? text = none) (brackets : List Nat) :
    dropArrays (text ++ brackets.flatMap arrayBrackets) = text := by
  -- a type that begins with no bracket is no group, however many brackets stand behind it
  have hgroup : ∀ behind, isGroup '[' (text ++ behind) = false := by
    intro behind
    simp [isGroup, hhead, htidy.ne_nil]
  induction brackets using List.reverseRecOn with
  | nil =>
      rw [List.flatMap_nil, List.append_nil]
      exact dropArrays_of_none (Or.inr hend)
  | append_singleton others commas ih =>
      have htidyAll := tidy_append_brackets htidy others
      rw [List.flatMap_append, List.flatMap_singleton, dropArrays, if_neg (by simp [hgroup])]
      split
      · rename_i before hsome
        rw [← List.append_assoc, beforeArray?_brackets] at hsome
        rw [← Option.some.inj hsome, htidyAll.strip, ih]
      · rename_i hnone
        rw [← List.append_assoc, beforeArray?_brackets] at hnone
        exact absurd hnone (by simp)

/-- An expression without the array brackets at its end, and without marks and quotes around it. -/
def bare : TypeTree dialect → TypeTree dialect
  | .nullable inner _ => bare inner
  | .array element _ _ => bare element
  | .quoted inner _ => bare inner
  | .joined false sign left right separates => .joined false sign left (bare right) separates
  | .function false params result angles => .function false params (bare result) angles
  | type => type

/-- Induction over expressions without array brackets at the end: only what may end in them is
followed. -/
theorem bare_induct {motive : TypeTree dialect → Prop} (named : ∀ name, motive (.named name))
    (applied : ∀ head first others, motive (.applied head first others))
    (joined : ∀ sign left right separates, motive (bare right) →
      motive (.joined false sign left (bare right) separates))
    (function : ∀ params result angles, motive (bare result) →
      motive (.function false params (bare result) angles))
    (joinedInParens : ∀ sign left right separates, motive (.joined true sign left right separates))
    (functionInParens : ∀ params result angles, motive (.function true params result angles))
    (type : TypeTree dialect) : motive type.bare := by
  induction type using induct with
  | named name => exact named name
  | applied head first others => exact applied head first others
  | nullable inner angles ih | array element commas angles ih | quoted inner squares ih => exact ih
  | joined inParens sign left right separates _ ihright =>
      cases inParens with
      | true => exact joinedInParens sign left right separates
      | false => exact joined sign left right separates ihright
  | function inParens params result angles _ ihresult =>
      cases inParens with
      | true => exact functionInParens params result angles
      | false => exact function params result angles ihresult

/-- Array brackets name no type. -/
theorem used_bare (type : TypeTree dialect) : type.bare.used = type.used := by
  fun_induction bare type with
  | case1 inner angles ih | case2 element commas angles ih | case3 inner squares ih => exact ih
  | case4 sign left right separates ih => rw [used, ih, used]
  | case5 params result angles ih => rw [used, ih, used]
  | case6 => rfl

/-- A type is its element's type with brackets behind it, one pair for each dimension. -/
theorem exists_brackets (type : TypeTree dialect) :
    ∃ brackets : List Nat, type.plain = type.bare.plain ++ brackets.flatMap arrayBrackets := by
  fun_induction bare type with
  | case1 inner angles ih =>
      rw [plain_nullable]
      exact ih
  | case2 element commas angles ih =>
      obtain ⟨brackets, heq⟩ := ih
      refine ⟨brackets ++ [commas], ?_⟩
      rw [plain_array, heq, List.flatMap_append, List.flatMap_singleton, List.append_assoc]
  | case3 inner squares ih =>
      rw [plain_quoted]
      exact ih
  | case4 sign left right separates ih =>
      obtain ⟨brackets, heq⟩ := ih
      refine ⟨brackets, ?_⟩
      rw [plain_joined, plain_joined, heq]
      simp [paren]
  | case5 params result angles ih =>
      obtain ⟨brackets, heq⟩ := ih
      refine ⟨brackets, ?_⟩
      rw [plain_function, plain_function, heq]
      simp [paren]
  | case6 type => exact ⟨[], (List.append_nil _).symm⟩

/-! ### Both ends of an expression -/

/-- A text that begins with a name or a parenthesis. -/
def Begins (text : Text) : Prop :=
  ∃ c rest, text = c :: rest ∧ ((isDollarNameChar c = true ∨ c = '.') ∨ c = '(')

/-- A text that ends in a name or a closing bracket. -/
def Ends (text : Text) : Prop :=
  ∃ front c, text = front ++ [c] ∧ ((isDollarNameChar c = true ∨ c = '.') ∨ c ∈ [')', ']', '>'])

theorem Begins.append {text : Text} (h : Begins text) (behind : Text) : Begins (text ++ behind) := by
  obtain ⟨c, rest, rfl, hc⟩ := h
  exact ⟨c, rest ++ behind, rfl, hc⟩

theorem Ends.behind {text : Text} (h : Ends text) (before : Text) : Ends (before ++ text) := by
  obtain ⟨front, c, rfl, hc⟩ := h
  exact ⟨before ++ front, c, (List.append_assoc _ _ _).symm, hc⟩

theorem Ends.join {separator : Text} {items : List Text} (hne : items ≠ [])
    (h : ∀ item ∈ items, Ends item) : Ends (join separator items) :=
  join_induct (fun hempty => absurd hempty hne) h fun _ _ _ hrest => (hrest.behind _).behind _

theorem begins_dotted (name : DottedName dialect) : Begins name.text := by
  obtain ⟨c, rest, htext, hc⟩ := name.exists_head
  exact ⟨c, rest, htext, Or.inl hc⟩

/-- A type begins with a name or a parenthesis. -/
theorem begins_plain (type : TypeTree dialect) : Begins type.plain := by
  induction type using induct with
  | named name => exact begins_dotted name
  | applied head first others =>
      rw [plain_applied]
      exact (begins_dotted head).append _
  | nullable inner angles ih => rwa [plain_nullable]
  | array element commas angles ih =>
      rw [plain_array]
      exact ih.append _
  | joined inParens sign left right separates ihleft _ =>
      rw [plain_joined]
      cases inParens with
      | true => exact ⟨'(', _, rfl, Or.inr rfl⟩
      | false => exact ihleft.append _
  | function inParens params result angles =>
      rw [plain_function]
      cases inParens <;> exact ⟨'(', _, rfl, Or.inr rfl⟩
  | quoted inner squares ih => rwa [plain_quoted]

theorem ends_paren (text : Text) : Ends (paren true text) :=
  ⟨'(' :: text, ')', rfl, Or.inr (by decide)⟩

/-- A type ends in a name's character or in a closing bracket. -/
theorem ends_plain (type : TypeTree dialect) : Ends type.plain := by
  induction type using induct with
  | named name =>
      exact ⟨name.text.dropLast, name.text.getLast name.ne_nil,
        (List.dropLast_concat_getLast _).symm, Or.inl (DottedName.mem_text (List.getLast_mem _))⟩
  | applied head first others =>
      have hcloser : dialect.closer ∈ [')', ']', '>'] := by
        unfold Dialect.closer
        split <;> decide
      rw [plain_applied]
      exact Ends.behind ⟨dialect.opener :: _, dialect.closer, rfl, Or.inr hcloser⟩ _
  | nullable inner angles ih => rwa [plain_nullable]
  | array element commas angles =>
      rw [plain_array]
      exact Ends.behind ⟨'[' :: List.replicate commas ',', ']', rfl, Or.inr (by decide)⟩ _
  | joined inParens sign left right separates _ ihright =>
      rw [plain_joined]
      cases inParens with
      | true => exact ends_paren _
      | false => exact (ihright.behind _).behind _
  | function inParens params result angles _ ihresult =>
      rw [plain_function]
      cases inParens with
      | true => exact ends_paren _
      | false => exact ihresult.behind _
  | quoted inner squares ih => rwa [plain_quoted]

/-- Brackets of type arguments are not those of an array, as there is always an argument. -/
theorem beforeArray?_applied (head : DottedName dialect) (first : TypeTree dialect)
    (others : List (TypeTree dialect)) (front : Text) :
    beforeArray? (front ++ (applied head first others).plain) = none := by
  have hargs : Ends (join [',', ' '] ((first :: others).map plain)) := by
    refine .join (by simp) fun item hitem => ?_
    obtain ⟨arg, _, rfl⟩ := List.mem_map.mp hitem
    exact ends_plain arg
  obtain ⟨inner, c, heq, hc⟩ := hargs
  have htext : front ++ (applied head first others).plain =
      (front ++ head.text ++ dialect.opener :: inner) ++ [c] ++ [dialect.closer] := by
    rw [plain_applied, heq]
    simp
  -- in square brackets the last argument tells the type from an array
  have hfacts : isBlank c = false ∧ c ≠ ',' ∧ c ≠ '[' := by
    rcases hc with (hname | rfl) | hbracket
    · exact ⟨not_blank_of_nameChar hname, ne_of_class hname (by decide),
        ne_of_class hname (by decide)⟩
    · decide
    · have hall : ∀ d ∈ [')', ']', '>'], isBlank d = false ∧ d ≠ ',' ∧ d ≠ '[' :=
        forall_chars (by decide)
      exact hall c hbracket
  rw [htext]
  unfold Dialect.closer
  split
  · exact beforeArray?_filled _ hfacts.1 hfacts.2.1 hfacts.2.2
  · exact beforeArray?_concat _ (by decide)

/-- A type in parentheses is no array. -/
theorem beforeArray?_paren (front text : Text) : beforeArray? (front ++ paren true text) = none := by
  have htext : front ++ paren true text = front ++ '(' :: text ++ [')'] := by simp [paren]
  rw [htext]
  exact beforeArray?_concat _ (by decide)

/-- Without its array brackets an expression ends in none. -/
theorem beforeArray?_bare (type : TypeTree dialect) (front : Text) :
    beforeArray? (front ++ type.bare.plain) = none := by
  refine bare_induct (motive := fun bare => ∀ front : Text, beforeArray? (front ++ bare.plain) = none)
    ?named ?applied ?joined ?function ?joinedInParens ?functionInParens type front
  case named =>
    intro name front
    have hlast : name.text.getLast name.ne_nil ≠ ']' := by
      intro heq
      exact name.not_mem (by decide) (by decide) (heq ▸ List.getLast_mem name.ne_nil)
    show beforeArray? (front ++ name.text) = none
    rw [← List.dropLast_concat_getLast name.ne_nil, ← List.append_assoc]
    exact beforeArray?_concat _ hlast
  case applied => exact beforeArray?_applied
  case joined =>
    -- only what stands to the right can end in brackets
    intro sign left right separates ih front
    have hright := ih (front ++ (left.plain ++ [' ', sign, ' ']))
    rwa [List.append_assoc, List.append_assoc] at hright
  case function =>
    intro params result angles ih front
    have hresult := ih (front ++ lead params)
    rw [List.append_assoc] at hresult
    rwa [plain_function]
  case joinedInParens => exact fun _ _ _ _ front => beforeArray?_paren front _
  case functionInParens =>
    intro params result angles front
    rw [plain_function]
    exact beforeArray?_paren front _

section Clean

variable (hregular : dialect.Regular)
include hregular

/-- Dropping the arrays of a type leaves its element's type. -/
theorem dropArrays_plain (type : TypeTree dialect) : dropArrays type.plain = type.bare.plain := by
  obtain ⟨brackets, heq⟩ := exists_brackets type
  obtain ⟨c, rest, hhead, hc⟩ := begins_plain type.bare
  have hbracket : type.bare.plain.head? ≠ some '[' := by
    rw [hhead, List.head?_cons]
    rintro ⟨⟩
    exact absurd hc (by decide)
  rw [heq]
  exact dropArrays_brackets (tidy hregular type.bare false) hbracket
    (beforeArray?_bare type []) brackets

/-- What is an expression between blanks is cleaned to the expression without marks and quotes, and
without the array brackets at its end. -/
theorem clean_write {type : TypeTree dialect} {marked : Bool} {expr : Text}
    (h : strip expr = write marked type) : dialect.clean expr = type.bare.plain := by
  have hedit : dialect.edit (strip expr) = type.plain := by
    rw [h]
    exact (edits_write hregular type marked).edit_eq
  have htidy : Tidy type.plain := tidy hregular type false
  show (dialect.dropWords (dialect.edit (strip expr))).strip.dropArrays = _
  rw [hedit, (keeps_plain hregular type).dropWords, htidy.strip]
  exact dropArrays_plain hregular type

end Clean

end TypeTree

end ClassDiagram
