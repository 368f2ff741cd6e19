import ClassDiagram.Text.Blank
import Mathlib.Data.List.Basic
import Mathlib.Data.List.TakeWhile

/-!
# Tidy texts

A text is tidy if it is words with one space between each two of them. Readers trim and collapse
what they are given; a tidy text comes through unchanged.

* `cut_append_cons`: cutting a text at a separator in it.
* `Tidy.append`, `Tidy.spaced`: tidy texts side by side, with or without a space.
* `Tidy.collapse`, `Tidy.strip_padded`: what collapsing and trimming do to a tidy text.
-/

namespace ClassDiagram

namespace Text

/-- What is checked for every character of a text. -/
theorem forall_chars {holds : Char → Prop} [DecidablePred holds] {text : Text}
    (h : text.all (fun c => decide (holds c)) = true) : ∀ c ∈ text, holds c :=
  fun c hc => of_decide_eq_true (List.all_eq_true.mp h c hc)

/-! ## Cutting -/

theorem attach_nil {segments : List Text} (h : segments ≠ []) : attach [] segments = segments := by
  cases segments with
  | nil => exact absurd rfl h
  | cons first rest => rfl

/-- What is attached in two steps is attached in one. -/
theorem attach_append (front back : Text) (segments : List Text) :
    attach (front ++ back) segments = attach front (attach back segments) := by
  cases segments with
  | nil => rfl
  | cons first rest => simp only [attach, List.append_assoc]

/-- Only the first segment is longer after attaching, so what follows it stays. -/
theorem attach_append_right {segments : List Text} (h : segments ≠ []) (front : Text)
    (others : List Text) : attach front (segments ++ others) = attach front segments ++ others := by
  cases segments with
  | nil => exact absurd rfl h
  | cons first rest => rfl

/-- A separator cuts a text in two. -/
theorem cut_append_cons {separates : Char → Bool} {c : Char} (hc : separates c = true)
    (before after : Text) :
    cut separates (before ++ c :: after) = cut separates before ++ cut separates after := by
  induction before with
  | nil =>
      show cut separates (c :: after) = [] :: cut separates after
      rw [cut, if_pos hc]
  | cons first rest ih =>
      rw [List.cons_append, cut, cut, ih]
      split
      · rfl
      · rw [attach_append_right (cut_ne_nil _ _)]

/-- Two texts are cut one behind the other, with the last segment of the first and the first segment
of the second in one. -/
theorem exists_cut_append (separates : Char → Bool) (before after : Text) :
    ∃ init last first others, cut separates before = init ++ [last] ∧
      cut separates after = first :: others ∧
      cut separates (before ++ after) = init ++ (last ++ first) :: others := by
  obtain ⟨first, others, hafter⟩ := List.exists_cons_of_ne_nil (cut_ne_nil separates after)
  induction before with
  | nil => exact ⟨[], [], first, others, rfl, hafter, hafter⟩
  | cons c rest ih =>
      obtain ⟨init, last, _, _, hrest, hafter', hwhole⟩ := ih
      cases hafter.symm.trans hafter'
      rw [List.cons_append, cut, cut, hrest, hwhole]
      split
      · exact ⟨[] :: init, last, first, others, rfl, hafter, rfl⟩
      -- the character goes to the first segment, which is the last one if there is no other
      · cases init with
        | nil => exact ⟨[], c :: last, first, others, rfl, hafter, rfl⟩
        | cons segment init =>
            exact ⟨(c :: segment) :: init, last, first, others, rfl, hafter, rfl⟩

/-- A text without separators is not cut. -/
theorem cut_of_none {separates : Char → Bool} {text : Text}
    (h : ∀ c ∈ text, separates c = false) : cut separates text = [text] := by
  induction text with
  | nil => rfl
  | cons first rest ih =>
      rw [cut, if_neg (by rw [h first List.mem_cons_self]; exact Bool.false_ne_true),
        ih fun c hc => h c (List.mem_cons_of_mem _ hc)]
      rfl

/-! ## Words -/

/-- The segments of a text hold no characters but its own. -/
theorem mem_of_mem_cut {separates : Char → Bool} {text segment : Text}
    (h : segment ∈ cut separates text) {c : Char} (hc : c ∈ segment) : c ∈ text := by
  induction text generalizing segment with
  | nil =>
      rw [List.mem_singleton.mp h] at hc
      exact absurd hc List.not_mem_nil
  | cons first rest ih =>
      rw [cut] at h
      split at h
      · rcases List.mem_cons.mp h with rfl | h
        · exact absurd hc List.not_mem_nil
        · exact List.mem_cons_of_mem _ (ih h hc)
      -- a character that does not separate goes to the first segment of the rest
      · cases hcut : cut separates rest with
        | nil => exact absurd hcut (cut_ne_nil _ _)
        | cons second others =>
            rw [hcut] at h ih
            rcases List.mem_cons.mp h with rfl | h
            · rcases List.mem_cons.mp hc with rfl | hc
              · exact List.mem_cons_self
              · exact List.mem_cons_of_mem _ (ih List.mem_cons_self hc)
            · exact List.mem_cons_of_mem _ (ih (List.mem_cons_of_mem _ h) hc)

@[simp] theorem words_nil : words [] = [] := rfl

/-- A blank parts words. -/
theorem words_append_cons {c : Char} (hc : isBlank c = true) (before after : Text) :
    words (before ++ c :: after) = words before ++ words after := by
  unfold words
  rw [cut_append_cons hc, List.filter_append]

/-- A word is the only word of itself. -/
theorem words_of_word {word : Text} (hne : word ≠ []) (h : ∀ c ∈ word, isBlank c = false) :
    words word = [word] := by
  unfold words
  rw [cut_of_none h]
  simp [hne]

/-- Blanks before a text add no words. -/
theorem words_blanks_append {lead : Text} (h : ∀ c ∈ lead, isBlank c = true) (text : Text) :
    words (lead ++ text) = words text := by
  induction lead with
  | nil => rfl
  | cons first rest ih =>
      have hfirst : words ([] ++ first :: (rest ++ text)) = words [] ++ words (rest ++ text) :=
        words_append_cons (h first List.mem_cons_self) _ _
      rw [List.cons_append, ← List.nil_append (first :: (rest ++ text)), hfirst,
        ih fun c hc => h c (List.mem_cons_of_mem _ hc)]
      rfl

/-- Blanks behind a text add no words. -/
theorem words_append_blanks {trail : Text} (h : ∀ c ∈ trail, isBlank c = true) (text : Text) :
    words (text ++ trail) = words text := by
  -- the first of the blanks parts the words, and the others stand before the empty text
  cases trail with
  | nil => rw [List.append_nil]
  | cons first rest =>
      have hrest := words_blanks_append (fun c hc => h c (List.mem_cons_of_mem _ hc)) []
      rw [words_append_cons (h first List.mem_cons_self), ← List.append_nil rest, hrest,
        words_nil, List.append_nil]

/-! ## Trimming -/

/-- What starts and ends with no blank is not trimmed. -/
theorem strip_eq_self {text : Text} (hfirst : ∀ c, text.head? = some c → isBlank c = false)
    (hlast : ∀ c, text.getLast? = some c → isBlank c = false) : strip text = text := by
  have hstart : stripStart text = text := by
    unfold stripStart
    cases text with
    | nil => rfl
    | cons c rest => rw [List.dropWhile_cons_of_neg (by simp [hfirst c rfl])]
  have hend : stripEnd text = text := by
    unfold stripEnd
    cases hrev : text.reverse with
    | nil => simpa using hrev.symm
    | cons c rest =>
        have hc : text.getLast? = some c := by rw [← List.head?_reverse, hrev]; rfl
        rw [List.dropWhile_cons_of_neg (by simp [hlast c hc]), ← hrev, List.reverse_reverse]
  unfold strip
  rw [hstart, hend]

/-- Blanks before a text are trimmed off with its own. -/
theorem stripStart_blanks_append {lead : Text} (h : ∀ c ∈ lead, isBlank c = true) (text : Text) :
    stripStart (lead ++ text) = stripStart text :=
  List.dropWhile_append_of_pos h

/-- The first character behind blanks is no later than the first that is none. -/
theorem mem_of_head?_stripStart {front : Text} {c d : Char} (hc : isBlank c = false) {rest : Text}
    (h : (stripStart (front ++ c :: rest)).head? = some d) : d ∈ front ++ [c] := by
  induction front with
  | nil =>
      rw [List.nil_append, stripStart, List.dropWhile_cons_of_neg (by simp [hc])] at h
      exact List.mem_singleton.mpr (Option.some.inj h).symm
  | cons first others ih =>
      by_cases hfirst : isBlank first = true
      · rw [List.cons_append, stripStart, List.dropWhile_cons_of_pos hfirst] at h
        exact List.mem_cons_of_mem _ (ih h)
      · rw [List.cons_append, stripStart, List.dropWhile_cons_of_neg hfirst] at h
        rw [← Option.some.inj h]
        exact List.mem_cons_self

/-- Blanks behind a text are trimmed off with its own. -/
theorem stripEnd_append_blanks {trail : Text} (h : ∀ c ∈ trail, isBlank c = true) (text : Text) :
    stripEnd (text ++ trail) = stripEnd text := by
  unfold stripEnd
  rw [List.reverse_append, List.dropWhile_append_of_pos]
  intro c hc
  exact h c (List.mem_reverse.mp hc)

/-- What stands before a text that is more than blanks is kept. -/
theorem stripEnd_append {text : Text} (h : stripEnd text ≠ []) (before : Text) :
    stripEnd (before ++ text) = before ++ stripEnd text := by
  have hne : text.reverse.dropWhile isBlank ≠ [] := fun hnil => h (by rw [stripEnd, hnil]; rfl)
  rw [stripEnd, stripEnd, List.reverse_append, List.dropWhile_append, if_neg (by simpa using hne),
    List.reverse_append, List.reverse_reverse]

/-- If nothing is left of a text, it was blanks. -/
theorem blank_of_stripEnd_eq_nil {text : Text} (h : stripEnd text = []) :
    ∀ c ∈ text, isBlank c = true := by
  have hdrop : text.reverse.dropWhile isBlank = [] := List.reverse_eq_nil_iff.mp h
  exact fun c hc => List.dropWhile_eq_nil_iff.mp hdrop c (List.mem_reverse.mpr hc)

/-- Of a text that starts with no blank, the start is left. -/
theorem exists_stripEnd_cons {c : Char} (hc : isBlank c = false) (rest : Text) :
    ∃ tail, stripEnd (c :: rest) = c :: tail := by
  have hone : stripEnd [c] = [c] := by
    rw [stripEnd, List.reverse_singleton, List.dropWhile_cons_of_neg (by simp [hc])]
    rfl
  by_cases hrest : stripEnd rest = []
  · refine ⟨[], ?_⟩
    rw [← List.singleton_append, stripEnd_append_blanks (blank_of_stripEnd_eq_nil hrest), hone]
  · exact ⟨stripEnd rest, stripEnd_append hrest [c]⟩

/-- Trimming before collapsing changes nothing. -/
theorem collapse_stripEnd (text : Text) : collapse (stripEnd text) = collapse text := by
  have hsplit : text = stripEnd text ++ (text.reverse.takeWhile isBlank).reverse := by
    rw [stripEnd, ← List.reverse_append, List.takeWhile_append_dropWhile, List.reverse_reverse]
  have hblanks : ∀ c ∈ (text.reverse.takeWhile isBlank).reverse, isBlank c = true := fun c hc =>
    List.mem_takeWhile_imp (List.mem_reverse.mp hc)
  conv => rhs; rw [hsplit]
  rw [collapse, collapse, words_append_blanks hblanks]

/-- A space before a text is lost in collapsing. -/
theorem collapse_space_cons (text : Text) : collapse (' ' :: text) = collapse text := by
  have hspace : ∀ c ∈ [' '], isBlank c = true := forall_chars (by decide)
  exact congrArg (join [' ']) (words_blanks_append hspace text)

/-- A text that starts with no blank starts in the same way when it is collapsed. -/
theorem exists_collapse_cons {c : Char} (hc : isBlank c = false) (rest : Text) :
    ∃ tail, collapse (c :: rest) = c :: tail := by
  obtain ⟨first, others, hcut⟩ := List.exists_cons_of_ne_nil (cut_ne_nil isBlank rest)
  have hwords : words (c :: rest) = (c :: first) :: others.filter fun word => !word.isEmpty := by
    rw [words, cut, if_neg (by simp [hc]), hcut]
    rfl
  rw [collapse, hwords]
  cases others.filter fun word => !word.isEmpty with
  | nil => exact ⟨first, List.intercalate_singleton⟩
  | cons second more => exact ⟨_, List.intercalate_cons_cons⟩

/-- A word and a space before a text stay when it is collapsed. -/
theorem collapse_word_append {word text : Text} (hne : word ≠ [])
    (hword : ∀ c ∈ word, isBlank c = false) (htext : collapse text ≠ []) :
    collapse (word ++ ' ' :: text) = word ++ ' ' :: collapse text := by
  have hspace : isBlank ' ' = true := by decide
  have hwords : words (word ++ ' ' :: text) = word :: words text := by
    rw [words_append_cons hspace, words_of_word hne hword]
    rfl
  rw [collapse, hwords]
  cases hrest : words text with
  | nil =>
      rw [collapse, hrest] at htext
      exact absurd rfl htext
  | cons second more =>
      rw [join, List.intercalate_cons_cons, collapse, hrest, List.append_assoc]
      rfl

/-- Words that are joined before others stand there with a space behind each of them. -/
theorem join_append_cons (front : List Text) (word : Text) (others : List Text) :
    join [' '] (front ++ word :: others) =
      front.flatMap (· ++ [' ']) ++ join [' '] (word :: others) := by
  induction front with
  | nil => rfl
  | cons first rest ih =>
      have hne : rest ++ word :: others ≠ [] := by simp
      obtain ⟨second, more, hrest⟩ := List.exists_cons_of_ne_nil hne
      rw [List.cons_append, hrest, join, List.intercalate_cons_cons, ← hrest, List.flatMap_cons,
        List.append_assoc _ _ (join _ _), ← ih, join, List.append_assoc]

/-- Read again, words with a space behind each of them are those words. -/
theorem words_flatMap_append {front : List Text}
    (h : ∀ word ∈ front, word ≠ [] ∧ ∀ c ∈ word, isBlank c = false) (text : Text) :
    words (front.flatMap (· ++ [' ']) ++ text) = front ++ words text := by
  induction front with
  | nil => rfl
  | cons first rest ih =>
      obtain ⟨⟨hne, hfilled⟩, hrest⟩ := List.forall_mem_cons.mp h
      have hspace : isBlank ' ' = true := by decide
      rw [List.flatMap_cons, List.append_assoc, List.append_assoc, List.singleton_append,
        words_append_cons hspace, words_of_word hne hfilled, ih hrest]
      rfl

/-- Collapsing makes no text longer. -/
theorem length_collapse_le (text : Text) : (collapse text).length ≤ text.length := by
  have hwords := room_filter_le (fun word => !word.isEmpty) (cut isBlank text)
  rw [room_cut] at hwords
  rw [collapse, length_join_blank, words]
  omega

/-- Of blanks alone nothing is left. -/
theorem strip_blanks {text : Text} (h : ∀ c ∈ text, isBlank c = true) : strip text = [] := by
  have hall : stripStart (text ++ []) = stripStart [] := stripStart_blanks_append h []
  rw [List.append_nil] at hall
  unfold strip
  rw [hall]
  rfl

/-- A text is what is left of it when it is trimmed, with blanks around it. -/
theorem exists_eq_strip_padded (text : Text) : ∃ lead trail, (∀ c ∈ lead, isBlank c = true) ∧
    (∀ c ∈ trail, isBlank c = true) ∧ text = lead ++ (strip text ++ trail) := by
  refine ⟨text.takeWhile isBlank, ((stripStart text).reverse.takeWhile isBlank).reverse,
    fun c hc => List.mem_takeWhile_imp hc,
    fun c hc => List.mem_takeWhile_imp (List.mem_reverse.mp hc), ?_⟩
  rw [strip, stripEnd, ← List.reverse_append, List.takeWhile_append_dropWhile,
    List.reverse_reverse, stripStart, List.takeWhile_append_dropWhile]

/-- Blanks around a text do not count when it is trimmed. -/
theorem strip_padding {lead trail : Text} (hlead : ∀ c ∈ lead, isBlank c = true)
    (htrail : ∀ c ∈ trail, isBlank c = true) (text : Text) :
    strip (lead ++ (text ++ trail)) = strip text := by
  rw [strip, stripStart_blanks_append hlead, strip]
  -- a text of blanks does not keep the blanks behind it from being trimmed at the start
  by_cases hblank : stripStart text = []
  · have htext : ∀ c ∈ text, isBlank c = true := List.dropWhile_eq_nil_iff.mp hblank
    rw [stripStart_blanks_append htext, hblank]
    exact strip_blanks htrail
  · have hkept : stripStart (text ++ trail) = stripStart text ++ trail := by
      rw [stripStart, List.dropWhile_append, if_neg (by simpa [stripStart] using hblank)]
      rfl
    rw [hkept, stripEnd_append_blanks htrail]

/-- Blanks before a text do not count when it is trimmed. -/
theorem strip_blanks_append {lead : Text} (hlead : ∀ c ∈ lead, isBlank c = true) (text : Text) :
    strip (lead ++ text) = strip text := by
  have hpadded := strip_padding hlead (fun _ hc => absurd hc List.not_mem_nil) text
  rwa [List.append_nil] at hpadded

/-- Blanks behind a text do not count when it is trimmed. -/
theorem strip_append_blanks {trail : Text} (htrail : ∀ c ∈ trail, isBlank c = true) (text : Text) :
    strip (text ++ trail) = strip text :=
  strip_padding (fun _ hc => absurd hc List.not_mem_nil) htrail text

/-- What is trimmed to nothing was blanks. -/
theorem blank_of_strip_eq_nil {text : Text} (h : strip text = []) :
    ∀ c ∈ text, isBlank c = true := by
  obtain ⟨lead, trail, hlead, htrail, htext⟩ := exists_eq_strip_padded text
  rw [htext, h]
  exact List.forall_mem_append.mpr ⟨hlead, htrail⟩

/-- What is trimmed is not trimmed further. -/
@[simp] theorem strip_strip (text : Text) : strip (strip text) = strip text := by
  obtain ⟨lead, trail, hlead, htrail, htext⟩ := exists_eq_strip_padded text
  conv => rhs; rw [htext, strip_padding hlead htrail]

/-- Trimming loses nothing but blanks. -/
theorem mem_strip {text : Text} {c : Char} (h : c ∈ text) (hc : isBlank c = false) :
    c ∈ strip text := by
  obtain ⟨lead, trail, hlead, htrail, htext⟩ := exists_eq_strip_padded text
  rw [htext] at h
  rcases List.mem_append.mp h with h | h
  · exact absurd (hlead c h) (by simp [hc])
  · rcases List.mem_append.mp h with h | h
    · exact h
    · exact absurd (htrail c h) (by simp [hc])

/-- What is trimmed starts with no blank. -/
theorem not_blank_of_head?_strip {text : Text} {c : Char} (h : (strip text).head? = some c) :
    isBlank c = false := by
  have hfirst := List.head?_dropWhile_not isBlank text
  cases hstart : text.dropWhile isBlank with
  | nil =>
      rw [strip, stripStart, hstart] at h
      cases h
  | cons d rest =>
      rw [hstart] at hfirst
      obtain ⟨tail, htail⟩ := exists_stripEnd_cons hfirst rest
      rw [strip, stripStart, hstart, htail] at h
      cases h
      exact hfirst

/-- What is left of a text stays before a mark behind it, with the blanks between them. -/
theorem exists_strip_append_mark {text gap : Text} {mark : Char} (hmark : isBlank mark = false)
    (hgap : ∀ c ∈ gap, isBlank c = true) (h : strip text ≠ []) :
    ∃ between, (∀ c ∈ between, isBlank c = true) ∧
      strip (text ++ (gap ++ [mark])) = strip text ++ (between ++ [mark]) := by
  obtain ⟨lead, trail, hlead, htrail, htext⟩ := exists_eq_strip_padded text
  refine ⟨trail ++ gap, List.forall_mem_append.mpr ⟨htrail, hgap⟩, ?_⟩
  -- what was left starts with no blank, and the mark is none
  have hself : strip (strip text ++ (trail ++ gap ++ [mark])) =
      strip text ++ (trail ++ gap ++ [mark]) := by
    refine strip_eq_self (fun c hc => ?_) fun c hc => ?_
    · rw [List.head?_append_of_ne_nil _ h] at hc
      exact not_blank_of_head?_strip hc
    · rw [← List.append_assoc, List.getLast?_concat] at hc
      exact Option.some.inj hc ▸ hmark
  have hpadded : text ++ (gap ++ [mark]) =
      lead ++ (strip text ++ (trail ++ gap ++ [mark]) ++ []) := by
    conv => lhs; rw [htext]
    simp only [List.append_assoc, List.append_nil]
  rw [hpadded, strip_padding hlead (fun _ hc => absurd hc List.not_mem_nil), hself]

/-- A text that ends in no blank ends so when it is trimmed. -/
theorem getLast?_strip {text : Text} {c : Char} (h : text.getLast? = some c)
    (hc : isBlank c = false) : (strip text).getLast? = some c := by
  obtain ⟨lead, trail, hlead, htrail, htext⟩ := exists_eq_strip_padded text
  have hnone : ∀ {blanks : Text}, (∀ d ∈ blanks, isBlank d = true) → c ∉ blanks := by
    intro blanks hblanks hmem
    exact absurd (hblanks c hmem) (by simp [hc])
  -- the last character is no blank, so there are no blanks behind it
  obtain rfl : trail = [] := by
    by_contra hne
    rw [htext, ← List.append_assoc, List.getLast?_append_of_ne_nil _ hne] at h
    exact hnone htrail (List.mem_of_getLast? h)
  by_cases hne : strip text = []
  · rw [htext, hne, List.append_nil, List.append_nil] at h
    exact absurd (List.mem_of_getLast? h) (hnone hlead)
  · rwa [htext, List.append_nil, List.getLast?_append_of_ne_nil _ hne] at h

/-! ## Tidy texts -/

/-- Words with one space between each two of them. -/
inductive Tidy : Text → Prop where
  | word {word : Text} : word ≠ [] → (∀ c ∈ word, isBlank c = false) → Tidy word
  | space {word rest : Text} : word ≠ [] → (∀ c ∈ word, isBlank c = false) → Tidy rest →
      Tidy (word ++ ' ' :: rest)

namespace Tidy

variable {text other : Text}

theorem ne_nil (h : Tidy text) : text ≠ [] := by
  cases h with
  | word hne _ => exact hne
  | space hne _ _ => simp

/-- A word before a tidy text makes its first word longer. -/
theorem word_append {word : Text} (hword : ∀ c ∈ word, isBlank c = false) (h : Tidy text) :
    Tidy (word ++ text) := by
  cases h with
  | word hne hblank =>
      refine Tidy.word (by simp [hne]) ?_
      intro c hc
      exact (List.mem_append.mp hc).elim (hword c) (hblank c)
  | space hne hblank hrest =>
      rw [← List.append_assoc]
      refine Tidy.space (by simp [hne]) ?_ hrest
      intro c hc
      exact (List.mem_append.mp hc).elim (hword c) (hblank c)

/-- Side by side, the last word of one text and the first word of the other become one word. -/
theorem append (h : Tidy text) (hother : Tidy other) : Tidy (text ++ other) := by
  induction h with
  | word _ hblank => exact hother.word_append hblank
  | space hne hblank _ ih =>
      rw [List.append_assoc, List.cons_append]
      exact Tidy.space hne hblank ih

/-- With a space between them, two tidy texts are one. -/
theorem spaced (h : Tidy text) (hother : Tidy other) : Tidy (text ++ ' ' :: other) := by
  induction h with
  | word hne hblank => exact Tidy.space hne hblank hother
  | space hne hblank _ ih =>
      rw [List.append_assoc, List.cons_append]
      exact Tidy.space hne hblank ih

/-- A tidy text has a word. -/
theorem words_ne_nil (h : Tidy text) : words text ≠ [] := by
  cases h with
  | word hne hblank => simp [words_of_word hne hblank]
  | space hne hblank _ =>
      rw [words_append_cons (by decide), words_of_word hne hblank]
      simp

/-- A tidy text is its words with a space between each two of them. -/
theorem join_words (h : Tidy text) : join [' '] (words text) = text := by
  induction h with
  | word hne hblank => simp [words_of_word hne hblank, join]
  | @space word rest hne hblank hrest ih =>
      rw [words_append_cons (by decide), words_of_word hne hblank]
      cases hwords : words rest with
      | nil => exact absurd hwords hrest.words_ne_nil
      | cons first others =>
          rw [List.singleton_append, join, List.intercalate_cons_cons, ← hwords]
          exact congrArg (fun t => word ++ [' '] ++ t) ih |>.trans (by simp)

/-- Collapsing leaves a tidy text alone. -/
theorem collapse (h : Tidy text) : collapse text = text := h.join_words

/-- A tidy text starts with a word. -/
theorem head_not_blank (h : Tidy text) {c : Char} (hc : text.head? = some c) :
    isBlank c = false := by
  -- both kinds of tidy texts begin with a word
  have hword : ∀ {word rest : Text}, word ≠ [] → (∀ c ∈ word, isBlank c = false) →
      (word ++ rest).head? = some c → isBlank c = false := by
    intro word rest hne hblank hhead
    cases word with
    | nil => exact absurd rfl hne
    | cons first others =>
        rw [List.cons_append, List.head?_cons, Option.some.injEq] at hhead
        exact hblank c (by rw [← hhead]; exact List.mem_cons_self)
  cases h with
  | word hne hblank => exact hword hne hblank (by rw [List.append_nil]; exact hc)
  | space hne hblank _ => exact hword hne hblank hc

/-- A tidy text ends in a word. -/
theorem last_not_blank (h : Tidy text) {c : Char} (hc : text.getLast? = some c) :
    isBlank c = false := by
  induction h with
  | word _ hblank => exact hblank c (List.mem_of_getLast? hc)
  | space _ _ hrest ih =>
      refine ih ?_
      rw [List.getLast?_append, List.getLast?_cons_of_ne_nil hrest.ne_nil] at hc
      cases hlast : List.getLast? _ with
      | none => exact absurd (List.getLast?_eq_none_iff.mp hlast) hrest.ne_nil
      | some last => rw [hlast] at hc; exact hc

/-- Trimming leaves a tidy text alone. -/
theorem strip (h : Tidy text) : strip text = text :=
  strip_eq_self (fun _ => h.head_not_blank) (fun _ => h.last_not_blank)

/-- A tidy text shields what follows it. -/
theorem stripStart_append (h : Tidy text) (behind : Text) :
    stripStart (text ++ behind) = text ++ behind := by
  unfold stripStart
  cases htext : text with
  | nil => exact absurd htext h.ne_nil
  | cons c rest =>
      have hc : isBlank c = false := h.head_not_blank (by rw [htext]; rfl)
      rw [List.cons_append, List.dropWhile_cons_of_neg (by simp [hc])]

theorem stripStart (h : Tidy text) : stripStart text = text := by
  have := h.stripStart_append []
  rwa [List.append_nil] at this

/-- Blanks around a tidy text are trimmed off, and nothing else. -/
theorem strip_padded (h : Tidy text) {lead trail : Text} (hlead : ∀ c ∈ lead, isBlank c = true)
    (htrail : ∀ c ∈ trail, isBlank c = true) : Text.strip (lead ++ (text ++ trail)) = text :=
  (strip_padding hlead htrail text).trans h.strip

/-- Blanks around a tidy text are lost when it is collapsed, and nothing else. -/
theorem collapse_padded (h : Tidy text) {lead trail : Text}
    (hlead : ∀ c ∈ lead, isBlank c = true) (htrail : ∀ c ∈ trail, isBlank c = true) :
    Text.collapse (lead ++ (text ++ trail)) = text := by
  unfold Text.collapse
  rw [words_blanks_append hlead, words_append_blanks htrail, h.join_words]

/-! Blanks on one side only. -/

theorem strip_behind (h : Tidy text) {lead : Text} (hlead : ∀ c ∈ lead, isBlank c = true) :
    Text.strip (lead ++ text) = text :=
  (strip_blanks_append hlead text).trans h.strip

theorem strip_before (h : Tidy text) {trail : Text} (htrail : ∀ c ∈ trail, isBlank c = true) :
    Text.strip (text ++ trail) = text :=
  (strip_append_blanks htrail text).trans h.strip

/-- Whatever follows, a tidy text is not trimmed. -/
theorem exists_strip_append (h : Tidy text) (behind : Text) :
    ∃ tail, Text.strip (text ++ behind) = text ++ tail := by
  by_cases hblank : stripEnd behind = []
  · exact ⟨[], by rw [h.strip_before (blank_of_stripEnd_eq_nil hblank), List.append_nil]⟩
  · exact ⟨_, by rw [Text.strip, h.stripStart_append, stripEnd_append hblank]⟩

theorem collapse_before (h : Tidy text) {trail : Text} (htrail : ∀ c ∈ trail, isBlank c = true) :
    Text.collapse (text ++ trail) = text := by
  have hpadded : Text.collapse ([] ++ (text ++ trail)) = text :=
    h.collapse_padded (by simp) htrail
  exact hpadded

theorem strip_space (h : Tidy text) : Text.strip (' ' :: text) = text := by
  have hspace : ∀ c ∈ [' '], isBlank c = true := forall_chars (by decide)
  exact h.strip_behind hspace

theorem collapse_space (h : Tidy text) : Text.collapse (' ' :: text) = text := by
  have hpadded : Text.collapse ([' '] ++ (text ++ [])) = text :=
    h.collapse_padded (forall_chars (by decide)) (by simp)
  rwa [List.append_nil] at hpadded

end Tidy

end Text

end ClassDiagram
