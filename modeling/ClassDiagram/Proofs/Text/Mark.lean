import ClassDiagram.Proofs.Scan.Balanced
import ClassDiagram.Proofs.Text.WordRun

/-!
# Marks and joined texts

Where a mark stands in a text that is put together from parts, and what joined texts inherit from
their parts.
-/

namespace ClassDiagram

namespace Text

variable {mark c : Char} {text before after : Text}

/-! ## Marks -/

theorem takeWhile_ne_of_not_mem (h : mark ∉ text) : text.takeWhile (· != mark) = text := by
  have happend : (text ++ []).takeWhile (· != mark) = text ++ [].takeWhile (· != mark) :=
    List.takeWhile_append_of_pos fun c hc => by simpa using fun heq : c = mark => h (heq ▸ hc)
  simpa using happend

theorem upTo_of_not_mem (h : mark ∉ text) : upTo mark text = text := takeWhile_ne_of_not_mem h

/-- What stands before the first mark is what is read up to it. -/
theorem upTo_append_mark (h : mark ∉ before) (after : Text) :
    upTo mark (before ++ mark :: after) = before := by
  unfold upTo
  rw [List.takeWhile_append_of_pos, List.takeWhile_cons_of_neg (by simp), List.append_nil]
  intro c hc
  simpa using fun heq : c = mark => h (heq ▸ hc)

theorem dropWhile_ne_append_mark (h : mark ∉ before) (after : Text) :
    (before ++ mark :: after).dropWhile (· != mark) = mark :: after := by
  rw [List.dropWhile_append_of_pos, List.dropWhile_cons_of_neg (by simp)]
  intro c hc
  simpa using fun heq : c = mark => h (heq ▸ hc)

theorem dropWhile_ne_of_not_mem (h : mark ∉ text) : text.dropWhile (· != mark) = [] := by
  have hall : (text ++ []).dropWhile (· != mark) = [].dropWhile (· != mark) :=
    List.dropWhile_append_of_pos fun c hc => by simpa using fun heq : c = mark => h (heq ▸ hc)
  rwa [List.append_nil] at hall

/-- What stands behind the first mark is what is read past it. -/
theorem past_append_mark (h : mark ∉ before) (after : Text) :
    past mark (before ++ mark :: after) = after := by
  rw [past, dropWhile_ne_append_mark h]
  rfl

/-- A text is cut at its first mark in one way only. -/
theorem append_mark_inj {other rest : Text} (hbefore : mark ∉ before) (hother : mark ∉ other)
    (h : before ++ mark :: after = other ++ mark :: rest) : before = other ∧ after = rest := by
  constructor
  · rw [← upTo_append_mark hbefore after, h, upTo_append_mark hother]
  · rw [← past_append_mark hbefore after, h, past_append_mark hother]

/-- Without the mark, nothing is read past it. -/
theorem past_of_not_mem (h : mark ∉ text) : past mark text = [] := by
  rw [past, dropWhile_ne_of_not_mem h]
  rfl

/-- A name without dots is its own simple name. -/
theorem simpleName_of_not_mem (h : '.' ∉ text) : simpleName text = text := by
  unfold simpleName pastLast
  rw [takeWhile_ne_of_not_mem (by simpa using h), List.reverse_reverse]

/-- What stands before a dot does not count for the last segment. -/
theorem simpleName_append_dot (before after : Text) :
    simpleName (before ++ '.' :: after) = simpleName after := by
  have hstop : ∀ text : Text, (text ++ '.' :: before.reverse).takeWhile (· != '.') =
      text.takeWhile (· != '.') := by
    intro text
    induction text with
    | nil => exact List.takeWhile_cons_of_neg (by decide)
    | cons c rest ih => rw [List.cons_append, List.takeWhile_cons, List.takeWhile_cons, ih]
  unfold simpleName pastLast
  rw [List.reverse_append, List.reverse_cons, List.append_assoc, List.singleton_append, hstop]

/-- What begins with a mark that is not there is not found. -/
theorem indexOf?_of_not_mem (h : mark ∉ text) {behind : Text} :
    indexOf? (mark :: behind) text = none := by
  induction text with
  | nil => rfl
  | cons c rest ih =>
      have hc : mark ≠ c := fun heq => h (heq ▸ List.mem_cons_self)
      rw [indexOf?, if_neg (by simp [hc]), ih fun hmem => h (List.mem_cons_of_mem _ hmem)]
      rfl

/-- The first mark is found at its place. -/
theorem indexOf?_append_mark (h : mark ∉ before) (after : Text) :
    indexOf? [mark] (before ++ mark :: after) = some before.length := by
  induction before with
  | nil => simp [indexOf?]
  | cons c rest ih =>
      have hc : mark ≠ c := fun heq => h (heq ▸ List.mem_cons_self)
      rw [List.cons_append, indexOf?, if_neg (by simpa using hc),
        ih fun hmem => h (List.mem_cons_of_mem _ hmem)]
      rfl

/-- A text includes each of its parts. -/
theorem includes_append (before pattern after : Text) :
    includes (before ++ (pattern ++ after)) pattern = true := by
  unfold includes
  induction before with
  | nil => cases pattern <;> cases after <;> simp [indexOf?]
  | cons c rest ih =>
      rw [List.cons_append, indexOf?]
      split
      · rfl
      · rw [Option.isSome_map, ih]

/-- A place found is that of an occurrence. -/
theorem isInfix_of_indexOf? {pattern : Text} {place : Nat}
    (h : indexOf? pattern text = some place) :
    ∃ before after, text = before ++ (pattern ++ after) := by
  induction text generalizing place with
  | nil =>
      rw [indexOf?] at h
      split at h
      · rename_i hempty
        exact ⟨[], [], by simpa using hempty⟩
      · exact absurd h (by simp)
  | cons c rest ih =>
      rw [indexOf?] at h
      split at h
      · rename_i hfront
        obtain ⟨after, hafter⟩ := List.isPrefixOf_iff_prefix.mp hfront
        exact ⟨[], after, hafter.symm⟩
      · obtain ⟨found, hfound, -⟩ := Option.map_eq_some_iff.mp h
        obtain ⟨before, after, heq⟩ := ih hfound
        exact ⟨c :: before, after, by rw [heq]; rfl⟩

/-- A word between spaces is a word run, so that a text which avoids it does not include it. -/
theorem not_includes_of_avoids {words : List String} {word : Text} (h : Avoids words text)
    (hempty : "" ∉ words) (hmem : String.ofList word ∈ words)
    (hword : ∀ c ∈ word, isWordChar c = true) :
    includes (' ' :: text ++ [' ']) (' ' :: word ++ [' ']) = false := by
  have hpadded : Avoids words (' ' :: text ++ [' ']) :=
    (h.append_cons (by decide) (Avoids.nil hempty)).cons (by decide) hempty
  by_contra hinc
  obtain ⟨place, hplace⟩ := Option.isSome_iff_exists.mp (Bool.not_eq_false _ ▸ hinc)
  obtain ⟨before, after, heq⟩ := isInfix_of_indexOf? hplace
  have hsplit : ' ' :: text ++ [' '] = before ++ ' ' :: (word ++ ' ' :: after) := by
    rw [heq]
    simp
  rw [hsplit] at hpadded
  have hrun := ((Avoids.append_cons_iff (by decide)).mp hpadded).2
  have hfront := ((Avoids.append_cons_iff (by decide)).mp hrun).1
  exact hfront word (by rw [wordRuns_of_word hword]; exact List.mem_singleton_self _) hmem

/-! ## Classes of characters -/

section Class

variable {holds : Char → Bool}

/-- A character of a class is none outside of it. -/
theorem ne_of_class {d : Char} (h : holds c = true) (hd : holds d = false) : c ≠ d := by
  rintro rfl
  rw [hd] at h
  exact Bool.false_ne_true h

/-- A search passes over a class that does not hold the first sign of its target. -/
theorem passes_class {first : Char} {rest : Text} (h : holds first = false) :
    Passes (first :: rest) fun c => holds c = true := by
  by_cases heq : first :: rest = ['=']
  · rw [heq]
    exact passes_assignment _
  · exact passes_of_ne heq fun c hc => ne_of_class hc h

/-- A list written with commas is cut at them, if no entry has one outside of its brackets. -/
theorem splitTop_commas {angles : Bool} {items : List Text} (hcomma : holds ',' = false)
    (hitems : ∀ item ∈ items,
      Balanced ⟨true, angles⟩ (fun c => holds c = true) item ∧ Tidy item) :
    splitTop (join [',', ' '] items) (· == ',') angles = items := by
  have htop : ∀ d, holds d = true → (d == ',') = false := fun d hd =>
    beq_eq_false_iff_ne.mpr (ne_of_class hd hcomma)
  have hall : splitTop ([] ++ join [',', ' '] items) (· == ',') angles = items :=
    splitTop_join (by decide) (by decide) (forall_chars (by decide)) htop hitems (by simp)
  exact hall

end Class

/-! ## Joined texts -/

variable {items : List Text} {separator : Text}

theorem join_pair (first second : Text) : join [' '] [first, second] = first ++ ' ' :: second := by
  simp [join, List.intercalate_cons_cons]

/-- What holds of the items of a list, and of two texts with the separator between them if of each,
holds of the joined list. -/
theorem join_induct {motive : Text → Prop} (hempty : items = [] → motive [])
    (hitems : ∀ item ∈ items, motive item)
    (hstep : ∀ item rest, motive item → motive rest → motive (item ++ (separator ++ rest))) :
    motive (join separator items) := by
  induction items with
  | nil => exact hempty rfl
  | cons first rest ih =>
      have hfirst := hitems first List.mem_cons_self
      cases rest with
      | nil => rwa [join, List.intercalate_singleton]
      | cons second others =>
          rw [join, List.intercalate_cons_cons, List.append_assoc]
          exact hstep _ _ hfirst (ih (fun h => absurd h (List.cons_ne_nil _ _)) fun item hitem =>
            hitems item (List.mem_cons_of_mem _ hitem))

/-- Joined items hold what the separator and the items hold. -/
theorem mem_join (h : c ∈ join separator items) : c ∈ separator ∨ ∃ item ∈ items, c ∈ item := by
  refine join_induct (motive := fun text => c ∈ text → c ∈ separator ∨ ∃ item ∈ items, c ∈ item)
    (fun _ hc => absurd hc List.not_mem_nil) (fun item hitem hc => Or.inr ⟨item, hitem, hc⟩) ?_ h
  intro item rest hitem hrest hc
  rcases List.mem_append.mp hc with hc | hc
  · exact hitem hc
  · exact (List.mem_append.mp hc).elim Or.inl hrest

/-- Balanced items with a balanced separator are balanced. -/
theorem Balanced.join {brackets : Brackets} {top : Char → Prop}
    (hitems : ∀ item ∈ items, Balanced brackets top item) (hsep : Balanced brackets top separator) :
    Balanced brackets top (join separator items) :=
  join_induct (fun _ => .nil) hitems fun _ _ hitem hrest => hitem.append (hsep.append hrest)

/-- A list in brackets, whatever stands at the top of its items. -/
theorem Balanced.listed {brackets : Brackets} {top inner : Char → Prop} {opener closer : Char}
    (hpair : closer? opener = some closer) (hopen : brackets.opens opener = true)
    (ho : top opener) (hc : top closer) (hitems : ∀ item ∈ items, Balanced brackets inner item) :
    Balanced brackets top (opener :: (Text.join [',', ' '] items ++ [closer])) := by
  refine .grouped hpair hopen ho hc (.join (fun item hitem => (hitems item hitem).inside) ?_)
  exact .of_ordinary (forall_chars (by decide))

/-- Tidy texts listed with a sign and a space are tidy. -/
theorem Tidy.join {sign : Char} (hsign : isBlank sign = false) (hne : items ≠ [])
    (hitems : ∀ item ∈ items, Tidy item) : Tidy (join [sign, ' '] items) := by
  have hword : Tidy [sign] := .word (by simp) (by simpa using hsign)
  refine join_induct (fun h => absurd h hne) hitems fun item rest hitem hrest => ?_
  exact hitem.append (hword.spaced hrest)

/-- Tidy texts with a sign between spaces between each two of them are tidy. -/
theorem Tidy.join_spaced {sign : Char} (hsign : isBlank sign = false) (hne : items ≠ [])
    (hitems : ∀ item ∈ items, Tidy item) : Tidy (Text.join [' ', sign, ' '] items) := by
  have hword : Tidy [sign] := .word (by simp) (by simpa using hsign)
  refine join_induct (fun h => absurd h hne) hitems fun item rest hitem hrest => ?_
  exact hitem.spaced (hword.spaced hrest)

/-- A list in brackets, with nothing blank but the spaces behind its commas. -/
theorem Tidy.listed {opener closer : Char} (hopener : isBlank opener = false)
    (hcloser : isBlank closer = false) (hitems : ∀ item ∈ items, Tidy item) :
    Tidy (opener :: (Text.join [',', ' '] items ++ [closer])) := by
  have hclose : Tidy [closer] := .word (by simp) (by simpa using hcloser)
  have hopen : ∀ c ∈ [opener], isBlank c = false := by simpa using hopener
  refine Tidy.word_append hopen ?_
  cases items with
  | nil => exact hclose
  | cons first rest =>
      have hlist : Tidy (Text.join [',', ' '] (first :: rest)) :=
        Tidy.join (by decide) (List.cons_ne_nil _ _) hitems
      exact hlist.append hclose

/-- Characters outside of words may stand before a text. -/
theorem Avoids.append_others {words : List String} (hempty : "" ∉ words) {lead : Text}
    (hlead : ∀ d ∈ lead, isWordChar d = false) (h : Avoids words text) :
    Avoids words (lead ++ text) := by
  induction lead with
  | nil => exact h
  | cons d rest ih =>
      exact (ih fun e he => hlead e (List.mem_cons_of_mem _ he)).cons
        (hlead d List.mem_cons_self) hempty

/-- A separator of signs joins no words, so that the items avoid what they avoided. -/
theorem Avoids.join {words : List String} (hempty : "" ∉ words)
    (hsep : ∀ d ∈ c :: separator, isWordChar d = false)
    (hitems : ∀ item ∈ items, Avoids words item) :
    Avoids words (join (c :: separator) items) := by
  refine join_induct (fun _ => .nil hempty) hitems fun item rest hitem hrest => ?_
  rw [List.cons_append]
  exact hitem.append_cons (hsep c List.mem_cons_self)
    (hrest.append_others hempty fun d hd => hsep d (List.mem_cons_of_mem _ hd))

end Text

end ClassDiagram
