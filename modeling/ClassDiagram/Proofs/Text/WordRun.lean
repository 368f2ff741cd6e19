import ClassDiagram.Proofs.Text.Tidy
import ClassDiagram.Reader.Header

/-!
# Word runs

The maximal runs of word characters in a text, empty ones included. Whatever searches a text for
whole words sees its word runs only: if none of them is looked for, the search finds nothing.

* `Avoids`: no word run is one of some words.
* `HeaderRule.next?_eq_none`, `wordPlace?_eq_none`: searches through a text that avoids their words.
* `wordPlaceFrom?_append`: a search goes on behind a part that avoids its word.
-/

namespace ClassDiagram

namespace Text

/-- The maximal runs of word characters, with an empty one between two other characters. -/
def wordRuns (text : Text) : List Text := cut (fun c => !isWordChar c) text

/-- A sign parts the words before it from those behind it. -/
theorem wordRuns_append_cons {c : Char} (hc : isWordChar c = false) (before after : Text) :
    wordRuns (before ++ c :: after) = wordRuns before ++ wordRuns after :=
  cut_append_cons (by rw [hc]; rfl) before after

/-- A word is one run. -/
theorem wordRuns_of_word {word : Text} (h : ∀ c ∈ word, isWordChar c = true) :
    wordRuns word = [word] :=
  cut_of_none fun c hc => by rw [h c hc]; rfl

/-- A word character goes to the run behind it. -/
theorem wordRuns_cons_of_word {c : Char} (hc : isWordChar c = true) (rest : Text) :
    wordRuns (c :: rest) = attach [c] (wordRuns rest) := by
  unfold wordRuns
  rw [cut, if_neg (by rw [hc]; decide)]

/-- A sign ends an empty run. -/
theorem wordRuns_cons_of_other {c : Char} (hc : isWordChar c = false) (rest : Text) :
    wordRuns (c :: rest) = [] :: wordRuns rest := by
  unfold wordRuns
  rw [cut, if_pos (by rw [hc]; rfl)]

/-- The first run is the word at the front. -/
theorem head?_wordRuns (text : Text) : (wordRuns text).head? = some (spanWord text).1 := by
  induction text with
  | nil => rfl
  | cons c rest ih =>
      cases hc : isWordChar c with
      | true =>
          rw [wordRuns_cons_of_word hc]
          show _ = some (List.takeWhile isWordChar (c :: rest))
          rw [List.takeWhile_cons_of_pos hc]
          cases hruns : wordRuns rest with
          | nil => exact absurd hruns (cut_ne_nil _ _)
          | cons first others =>
              rw [hruns] at ih
              simp only [attach, List.head?_cons, spanWord, Option.some.injEq] at ih ⊢
              rw [ih]
              rfl
      | false =>
          rw [wordRuns_cons_of_other hc]
          show _ = some (List.takeWhile isWordChar (c :: rest))
          rw [List.takeWhile_cons_of_neg (by simp [hc])]
          rfl

/-- No word run of the text is one of the words. -/
def Avoids (words : List String) (text : Text) : Prop :=
  ∀ run ∈ wordRuns text, String.ofList run ∉ words

/-- None of the runs is a word looked for, apart from the first if that began before the text. -/
def AvoidsBehind (words : List String) (afterWordChar : Bool) (text : Text) : Prop :=
  ∀ run ∈ (if afterWordChar then (wordRuns text).tail else wordRuns text),
    String.ofList run ∉ words

namespace AvoidsBehind

variable {words : List String} {afterWordChar : Bool} {c : Char} {rest : Text}

/-- Reading a character on, what is behind it is still avoided. -/
theorem tail (h : AvoidsBehind words afterWordChar (c :: rest)) :
    AvoidsBehind words (isWordChar c) rest := by
  intro run hrun
  cases hc : isWordChar c with
  | true =>
      rw [hc, if_pos rfl] at hrun
      have hmem : run ∈ (wordRuns (c :: rest)).tail := by
        rw [wordRuns_cons_of_word hc]
        cases hruns : wordRuns rest with
        | nil => exact absurd hruns (cut_ne_nil _ _)
        | cons first others => rw [hruns] at hrun; exact hrun
      refine h run ?_
      split
      · exact hmem
      · exact List.mem_of_mem_tail hmem
  | false =>
      rw [hc, if_neg Bool.false_ne_true] at hrun
      refine h run ?_
      rw [wordRuns_cons_of_other hc]
      split
      · exact hrun
      · exact List.mem_cons_of_mem _ hrun

/-- The word at the front is none of the words. -/
theorem front (h : AvoidsBehind words false (c :: rest)) :
    String.ofList (spanWord (c :: rest)).1 ∉ words :=
  h _ (List.mem_of_mem_head? (head?_wordRuns _))

end AvoidsBehind

namespace Avoids

variable {words : List String} {text before after : Text}

theorem behind (h : Avoids words text) : AvoidsBehind words false text := h

/-- Around a sign, words are avoided if they are on both sides. -/
theorem append_cons_iff {c : Char} (hc : isWordChar c = false) :
    Avoids words (before ++ c :: after) ↔ Avoids words before ∧ Avoids words after := by
  unfold Avoids
  rw [wordRuns_append_cons hc]
  simp only [List.mem_append, or_imp, forall_and]

theorem append_cons {c : Char} (hc : isWordChar c = false) (hbefore : Avoids words before)
    (hafter : Avoids words after) : Avoids words (before ++ c :: after) :=
  (append_cons_iff hc).mpr ⟨hbefore, hafter⟩

/-- A sign before a text adds no word. -/
theorem cons {c : Char} (hc : isWordChar c = false) (hempty : "" ∉ words)
    (hafter : Avoids words after) : Avoids words (c :: after) := by
  intro run hrun
  rw [wordRuns_cons_of_other hc] at hrun
  rcases List.mem_cons.mp hrun with rfl | hrun
  · exact hempty
  · exact hafter run hrun

theorem nil (hempty : "" ∉ words) : Avoids words [] := by
  intro run hrun
  rw [List.mem_singleton.mp hrun]
  exact hempty

/-- A word avoids all other words. -/
theorem of_word (hword : ∀ c ∈ text, isWordChar c = true) (h : String.ofList text ∉ words) :
    Avoids words text := by
  intro run hrun
  rw [wordRuns_of_word hword] at hrun
  rw [List.mem_singleton.mp hrun]
  exact h

/-- A text that avoids words avoids fewer of them. -/
theorem mono {fewer : List String} (h : Avoids words text) (hsub : fewer ⊆ words) :
    Avoids fewer text :=
  fun run hrun hmem => h run hrun (hsub hmem)

/-- A text that avoids some words is none of them. -/
theorem not_mem (h : Avoids words text)
    (hwords : ∀ word ∈ words, ∀ c ∈ word.toList, isWordChar c = true) :
    String.ofList text ∉ words := by
  intro hmem
  have hchars := hwords _ hmem
  rw [String.toList_ofList] at hchars
  exact h text (by rw [wordRuns_of_word hchars]; exact List.mem_singleton_self _) hmem

/-- What stands before the first space is none of the words, as far as these are words. -/
theorem upTo_space (h : Avoids words text)
    (hwords : ∀ word ∈ words, ∀ c ∈ word.toList, isWordChar c = true) :
    String.ofList (upTo ' ' text) ∉ words := by
  intro hmem
  have hchars : ∀ c ∈ upTo ' ' text, isWordChar c = true := by
    have := hwords _ hmem
    rwa [String.toList_ofList] at this
  -- all of it being word characters, it is the word at the front
  have hfront : (spanWord text).1 = upTo ' ' text := by
    show text.takeWhile isWordChar = text.takeWhile (· != ' ')
    clear hmem h
    induction text with
    | nil => rfl
    | cons c rest ih =>
        by_cases hc : c = ' '
        · subst hc
          rw [List.takeWhile_cons_of_neg (by decide), List.takeWhile_cons_of_neg (by decide)]
        · have hup : upTo ' ' (c :: rest) = c :: upTo ' ' rest :=
            List.takeWhile_cons_of_pos (by simpa using hc)
          rw [hup] at hchars
          rw [List.takeWhile_cons_of_pos (hchars c List.mem_cons_self),
            List.takeWhile_cons_of_pos (by simpa using hc),
            ih fun d hd => hchars d (List.mem_cons_of_mem _ hd)]
  rw [← hfront] at hmem
  exact h _ (List.mem_of_mem_head? (head?_wordRuns _)) hmem

end Avoids

/-! ## Searching for whole words -/

/-- A word that a text avoids is not found in it. -/
theorem wordPlaceFrom?_eq_none {wanted : Text → Bool} {words : List String}
    (hwanted : ∀ run, wanted run = true → String.ofList run ∈ words) {afterWordChar : Bool}
    {text : Text} (h : AvoidsBehind words afterWordChar text) :
    wordPlaceFrom? wanted afterWordChar text = none := by
  induction text generalizing afterWordChar with
  | nil => rfl
  | cons c rest ih =>
      have hfront :
          ¬ (!afterWordChar && isWordChar c && wanted (spanWord (c :: rest)).1) = true := by
        intro hfound
        simp only [Bool.and_eq_true, Bool.not_eq_true'] at hfound
        rw [hfound.1.1] at h
        exact h.front (hwanted _ hfound.2)
      rw [wordPlaceFrom?, if_neg hfront, ih h.tail]
      rfl

theorem wordPlace?_eq_none {word : String} {text : Text} (h : Avoids [word] text) :
    wordPlace? word text = none :=
  wordPlaceFrom?_eq_none (fun _ hrun => List.mem_singleton.mpr (of_decide_eq_true hrun)) h.behind

/-- A search goes on behind a part that avoids its words and a character that ends it. -/
theorem wordPlaceFrom?_append {wanted : Text → Bool} {words : List String}
    (hwanted : ∀ run, wanted run = true → String.ofList run ∈ words) {afterWordChar : Bool}
    {before : Text} (h : AvoidsBehind words afterWordChar before) {c : Char}
    (hc : isWordChar c = false) (after : Text) :
    wordPlaceFrom? wanted afterWordChar (before ++ c :: after) =
      (wordPlaceFrom? wanted false after).map (· + (before.length + 1)) := by
  induction before generalizing afterWordChar with
  | nil =>
      rw [List.nil_append, wordPlaceFrom?, hc, Bool.and_false, Bool.false_and,
        if_neg Bool.false_ne_true]
      rfl
  | cons first rest ih =>
      have hfront : ¬ (!afterWordChar && isWordChar first &&
          wanted (spanWord (first :: (rest ++ c :: after))).1) = true := by
        intro hfound
        simp only [Bool.and_eq_true, Bool.not_eq_true'] at hfound
        rw [hfound.1.1] at h
        -- the word at the front ends before the character, so it is the same without what follows
        have hspan :
            (spanWord (first :: (rest ++ c :: after))).1 = (spanWord (first :: rest)).1 := by
          show List.takeWhile _ ((first :: rest) ++ c :: after) = List.takeWhile _ (first :: rest)
          rw [List.takeWhile_append]
          split
          · rename_i hall
            rw [List.takeWhile_cons_of_neg (by simp [hc]), List.append_nil]
            exact (List.IsPrefix.eq_of_length (List.takeWhile_prefix _) hall).symm
          · rfl
        rw [hspan] at hfound
        exact h.front (hwanted _ hfound.2)
      rw [List.cons_append, wordPlaceFrom?, if_neg hfront, ih h.tail, Option.map_map]
      refine congrArg (Option.map · _) (funext fun place => ?_)
      show place + (rest.length + 1) + 1 = place + (rest.length + 1 + 1)
      omega

/-- What is found behind a character that ends a word is found from further ahead as well, there or
earlier. -/
theorem isSome_wordPlaceFrom?_append {wanted : Text → Bool} {c : Char}
    (hc : isWordChar c = false) {after : Text}
    (h : (wordPlaceFrom? wanted false after).isSome = true) (afterWordChar : Bool) (before : Text) :
    (wordPlaceFrom? wanted afterWordChar (before ++ c :: after)).isSome = true := by
  induction before generalizing afterWordChar with
  | nil =>
      rw [List.nil_append, wordPlaceFrom?]
      split
      · rfl
      · rw [hc, Option.isSome_map]
        exact h
  | cons first rest ih =>
      rw [List.cons_append, wordPlaceFrom?]
      split
      · rfl
      · rw [Option.isSome_map]
        exact ih _

end Text

namespace HeaderRule

/-- Without a keyword among its words a text has no header. -/
theorem nextFrom?_eq_none {rule : HeaderRule} {keywords : List String}
    (hread : ∀ text, String.ofList (Text.spanWord text).1 ∉ keywords → rule.read? text = none)
    {afterWordChar : Bool} {offset : Nat} {text : Text}
    (h : Text.AvoidsBehind keywords afterWordChar text) :
    rule.nextFrom? afterWordChar offset text = none := by
  induction text generalizing afterWordChar offset with
  | nil => rw [nextFrom?]
  | cons c rest ih =>
      have hnone : rule.at? afterWordChar (c :: rest) = none := by
        unfold at?
        cases hafter : afterWordChar with
        | true => rfl
        | false =>
            rw [hafter] at h
            exact hread _ h.front
      rw [nextFrom?]
      split
      · rename_i hsome
        rw [hnone] at hsome
        exact absurd hsome (by simp)
      · exact ih h.tail

/-- Without its keywords, a text has no header. -/
theorem next?_eq_none {rule : HeaderRule} {keywords : List String}
    (hread : ∀ text, String.ofList (Text.spanWord text).1 ∉ keywords → rule.read? text = none)
    {text : Text} (h : Text.Avoids keywords text) : rule.next? text = none :=
  nextFrom?_eq_none hread h.behind

/-- A header at the front of a text is the next one. -/
theorem next?_of_read? {rule : HeaderRule} {text name rest : Text} {keyword : String}
    (h : rule.read? text = some (keyword, name, rest))
    (hfree : rule.isReserved (String.ofList name) = false) :
    rule.next? text = some ⟨keyword, name, 0, rest⟩ := by
  cases text with
  | nil =>
      have := rule.shorter h
      exact absurd this (Nat.not_lt_zero _)
  | cons c tail =>
      have hat : rule.at? false (c :: tail) = some (keyword, name, rest) := h
      rw [next?, nextFrom?]
      split
      · rename_i hsome
        rw [hat] at hsome
        cases hsome
        rw [if_neg (by rw [hfree]; exact Bool.false_ne_true)]
      · rename_i hnone
        rw [hat] at hnone
        exact absurd hnone (by simp)

end HeaderRule

end ClassDiagram
