import ClassDiagram.Proofs.Reading.Owner
import ClassDiagram.Proofs.Scan.Balanced

/-!
# Which declarations are found

Reading C# jumps: behind a header it goes on at the brace of the body if there is a body, else right
behind the name. A plain search goes from header to header and knows nothing of braces. Both find the
same declarations, since a jump never passes a header: no header is found up to the brace, and none
that begins before a brace goes on behind it.

* `HeaderRule.headersFrom`: the headers of a text, each searched for behind the one before.
* `HeaderRule.Regular`: reading a header takes whole words and stops at a brace.
* `HeaderRule.nextFrom?_brace`: a search that finds nothing up to a brace goes on behind it.
* `CSharp.declarations_facts`: what is declared is what the plain search finds.
-/

namespace ClassDiagram

namespace HeaderRule

/-! ## Searching at a place -/

/-- The next header at or behind a place of a text. -/
def nextAt? (rule : HeaderRule) (text : Text) (place : Nat) : Option Header :=
  rule.nextFrom? ((text.take place).getLast?.any Text.isWordChar) place (text.drop place)

/-- The headers of a text from a place on, each searched for where the one before ends. -/
def headersFrom (rule : HeaderRule) (text : Text) (place : Nat) : List Header :=
  match h : rule.nextAt? text place with
  | none => []
  | some header => header :: rule.headersFrom text (text.length - header.rest.length)
termination_by text.length - place
decreasing_by
  have := length_rest_lt_of_nextFrom? h
  rw [List.length_drop] at this
  omega

/-- Where there is no further header, none is listed. -/
theorem headersFrom_of_none {rule : HeaderRule} {text : Text} {place : Nat}
    (h : rule.nextAt? text place = none) : rule.headersFrom text place = [] := by
  rw [headersFrom]
  split
  · rfl
  · rename_i hsome
    exact absurd (h.symm.trans hsome) (by simp)

/-- The headers are listed one after the other, each from where the last one ended. -/
theorem headersFrom_of_some {rule : HeaderRule} {text : Text} {place : Nat} {header : Header}
    (h : rule.nextAt? text place = some header) :
    rule.headersFrom text place =
      header :: rule.headersFrom text (text.length - header.rest.length) := by
  rw [headersFrom]
  split
  · rename_i hnone
    exact absurd (h.symm.trans hnone) (by simp)
  · rename_i found hsome
    cases h.symm.trans hsome
    rfl

/-- From where on headers are searched for matters by the first one found only. -/
theorem headersFrom_congr {rule : HeaderRule} {text : Text} {place other : Nat}
    (h : rule.nextAt? text place = rule.nextAt? text other) :
    rule.headersFrom text place = rule.headersFrom text other := by
  cases hother : rule.nextAt? text other with
  | none => rw [headersFrom_of_none hother, headersFrom_of_none (h.trans hother)]
  | some header => rw [headersFrom_of_some hother, headersFrom_of_some (h.trans hother)]

/-! ## One step of the search -/

section Step

variable {rule : HeaderRule} {afterWordChar : Bool} {offset : Nat} {c : Char} {tail name rest : Text}
  {keyword : String}

/-- Where no header stands, the search goes on with the next character. -/
theorem nextFrom?_of_none (h : rule.at? afterWordChar (c :: tail) = none) :
    rule.nextFrom? afterWordChar offset (c :: tail) =
      rule.nextFrom? (Text.isWordChar c) (offset + 1) tail := by
  rw [nextFrom?]
  split
  · rename_i hsome
    exact absurd (h.symm.trans hsome) (by simp)
  · rfl

/-- Where a header stands it is found, unless its name is reserved. -/
theorem nextFrom?_of_some (h : rule.at? afterWordChar (c :: tail) = some (keyword, name, rest)) :
    rule.nextFrom? afterWordChar offset (c :: tail) =
      if rule.isReserved (String.ofList name) then
        rule.nextFrom? true (offset + ((c :: tail).length - rest.length)) rest
      else some ⟨keyword, name, offset, rest⟩ := by
  rw [nextFrom?]
  split
  · rename_i hsome
    cases h.symm.trans hsome
    rfl
  · rename_i hnone
    exact absurd (h.symm.trans hnone) (by simp)

end Step

/-- A header further on in a text. -/
def shift (amount : Nat) (header : Header) : Header :=
  { header with offset := amount + header.offset }

/-- Where a text stands is no matter but for the places of its headers. -/
theorem nextFrom?_shift (rule : HeaderRule) (afterWordChar : Bool) (amount offset : Nat)
    (text : Text) :
    rule.nextFrom? afterWordChar (amount + offset) text =
      (rule.nextFrom? afterWordChar offset text).map (shift amount) := by
  fun_induction nextFrom? rule afterWordChar offset text with
  | case1 => rw [nextFrom?]; rfl
  | case2 afterWordChar offset c tail keyword name rest hat hreserved ih =>
      rw [nextFrom?_of_some hat, if_pos hreserved, Nat.add_assoc, ih]
  | case3 afterWordChar offset c tail keyword name rest hat hfree =>
      rw [nextFrom?_of_some hat, if_neg hfree]
      rfl
  | case4 afterWordChar offset c tail hat ih =>
      rw [nextFrom?_of_none hat, Nat.add_assoc, ih]

/-- A header stands at or behind the place where the search begins, and takes room. -/
theorem offset_of_nextFrom? {rule : HeaderRule} {afterWordChar : Bool} {offset : Nat} {text : Text}
    {header : Header} (h : rule.nextFrom? afterWordChar offset text = some header) :
    offset ≤ header.offset ∧ header.offset + header.rest.length < offset + text.length := by
  fun_induction nextFrom? rule afterWordChar offset text with
  | case1 => exact absurd h (by simp)
  | case2 afterWordChar offset c tail keyword name rest hat _ ih =>
      have := ih h
      have := shorter_at? hat
      omega
  | case3 afterWordChar offset c tail keyword name rest hat _ =>
      have := shorter_at? hat
      cases h
      dsimp only
      omega
  | case4 afterWordChar offset c tail _ ih =>
      have := ih h
      rw [List.length_cons]
      omega

/-- The headers of a text stand one behind the other. -/
theorem ascending_headersFrom (rule : HeaderRule) (text : Text) (place : Nat) :
    (∀ header ∈ rule.headersFrom text place, place ≤ header.offset) ∧
      ((rule.headersFrom text place).map Header.offset).Pairwise (· < ·) := by
  fun_induction headersFrom rule text place with
  | case1 => simp
  | case2 place header h ih =>
      obtain ⟨hbegins, hends⟩ := offset_of_nextFrom? h
      rw [List.length_drop] at hends
      have hlater : ∀ later ∈ rule.headersFrom text (text.length - header.rest.length),
          header.offset < later.offset := by
        intro later hmem
        have := ih.1 later hmem
        omega
      refine ⟨?_, ?_⟩
      · intro other hother
        rcases List.mem_cons.mp hother with rfl | hother
        · exact hbegins
        · exact Nat.le_trans hbegins (Nat.le_of_lt (hlater other hother))
      · rw [List.map_cons]
        refine List.pairwise_cons.mpr ⟨fun later hmem => ?_, ih.2⟩
        obtain ⟨other, hother, rfl⟩ := List.mem_map.mp hmem
        exact hlater other hother

/-! ## Rules that read whole words -/

/-- A text that goes on with no word. -/
def BeginsNoWord (text : Text) : Prop := ∀ c ∈ text.head?, Text.isWordChar c = false

/-- A rule by which a header is made of whole words and blanks: it begins with a word, ends with the
last of its words, and never reads past a brace. -/
structure Regular (rule : HeaderRule) : Prop where
  begins : ∀ {text}, BeginsNoWord text → rule.read? text = none
  ends : ∀ {text keyword name rest}, rule.read? text = some (keyword, name, rest) →
    rest <:+ text ∧ BeginsNoWord rest
  stops : ∀ text behind, rule.read? (text ++ '\x7b' :: behind) =
    (rule.read? text).map fun (keyword, name, rest) => (keyword, name, rest ++ '\x7b' :: behind)

namespace Regular

variable {rule : HeaderRule}

/-- Before a text that begins no word it does not matter what came. -/
theorem nextFrom?_afterWordChar (h : rule.Regular) {text : Text} (htext : BeginsNoWord text)
    (afterWordChar : Bool) (offset : Nat) :
    rule.nextFrom? afterWordChar offset text = rule.nextFrom? false offset text := by
  cases text with
  | nil => rw [nextFrom?, nextFrom?]
  | cons c tail =>
      have hnone : ∀ after, rule.at? after (c :: tail) = none := by
        intro after
        unfold at?
        split
        · rfl
        · exact h.begins htext
      rw [nextFrom?_of_none (hnone _), nextFrom?_of_none (hnone _)]

/-- What follows a header is the end of the text, and begins no word. -/
theorem rest_of_nextFrom? (h : rule.Regular) {afterWordChar : Bool} {offset : Nat} {text : Text}
    {header : Header} (hheader : rule.nextFrom? afterWordChar offset text = some header) :
    header.rest <:+ text ∧ BeginsNoWord header.rest := by
  have hends : ∀ {afterWordChar text keyword name rest},
      rule.at? afterWordChar text = some (keyword, name, rest) →
        rest <:+ text ∧ BeginsNoWord rest := by
    intro afterWordChar text keyword name rest hat
    unfold at? at hat
    split at hat
    · exact absurd hat (by simp)
    · exact h.ends hat
  fun_induction nextFrom? rule afterWordChar offset text with
  | case1 => exact absurd hheader (by simp)
  | case2 afterWordChar offset c tail keyword name rest hat _ ih =>
      exact ⟨(ih hheader).1.trans (hends hat).1, (ih hheader).2⟩
  | case3 afterWordChar offset c tail keyword name rest hat _ =>
      cases hheader
      exact hends hat
  | case4 afterWordChar offset c tail _ ih =>
      exact ⟨(ih hheader).1.trans (List.suffix_cons _ _), (ih hheader).2⟩

/-- A search that finds nothing up to a brace goes on behind it. -/
theorem nextFrom?_brace (h : rule.Regular) {afterWordChar : Bool} {offset : Nat} {text : Text}
    (hnone : rule.nextFrom? afterWordChar offset text = none) (behind : Text) :
    rule.nextFrom? afterWordChar offset (text ++ '\x7b' :: behind) =
      rule.nextFrom? false (offset + text.length + 1) behind := by
  have hat : ∀ (after : Bool) (text : Text), rule.at? after (text ++ '\x7b' :: behind) =
      (rule.at? after text).map fun (keyword, name, rest) =>
        (keyword, name, rest ++ '\x7b' :: behind) := by
    intro after text
    unfold at?
    split
    · rfl
    · exact h.stops text behind
  fun_induction nextFrom? rule afterWordChar offset text with
  | case1 afterWordChar offset =>
      have hbrace : rule.at? afterWordChar ('\x7b' :: behind) = none := by
        have hnil : rule.at? afterWordChar [] = none := by
          unfold at?
          split
          · rfl
          · exact h.begins (by simp [BeginsNoWord])
        simpa [hnil] using hat afterWordChar []
      rw [List.nil_append, nextFrom?_of_none hbrace]
      rfl
  | case2 afterWordChar offset c tail keyword name rest hread hreserved ih =>
      -- a reserved name is passed over the same way, since its header ends before the brace
      have hlonger := hat afterWordChar (c :: tail)
      rw [hread, Option.map_some] at hlonger
      have hshorter := shorter_at? hread
      rw [List.cons_append] at hlonger ⊢
      rw [nextFrom?_of_some hlonger, if_pos hreserved]
      simp only [List.length_cons, List.length_append] at hshorter ⊢
      have hplace : offset + (tail.length + (behind.length + 1) + 1 -
          (rest.length + (behind.length + 1))) = offset + ((c :: tail).length - rest.length) := by
        rw [List.length_cons]
        omega
      rw [hplace, ih hnone]
      congr 1
      rw [List.length_cons]
      omega
  | case3 => exact absurd hnone (by simp)
  | case4 afterWordChar offset c tail hread ih =>
      have hlonger := hat afterWordChar (c :: tail)
      rw [hread, Option.map_none] at hlonger
      rw [List.cons_append] at hlonger ⊢
      rw [nextFrom?_of_none hlonger, ih hnone, List.length_cons]
      congr 1
      omega

end Regular

end HeaderRule

/-! ## Headers of C# -/

namespace Text

section Brace

variable {holds : Char → Bool} (h : holds '\x7b' = false) (behind : Text)
include h

/-- What is taken before a brace does not go past it. -/
theorem takeWhile_append_brace (text : Text) :
    (text ++ '\x7b' :: behind).takeWhile holds = text.takeWhile holds := by
  induction text with
  | nil => simp [h]
  | cons c rest ih => simp [List.takeWhile_cons, ih]

/-- What is dropped before a brace does not go past it. -/
theorem dropWhile_append_brace (text : Text) :
    (text ++ '\x7b' :: behind).dropWhile holds = text.dropWhile holds ++ '\x7b' :: behind := by
  induction text with
  | nil => simp [h]
  | cons c rest ih =>
      rw [List.cons_append, List.dropWhile_cons, List.dropWhile_cons, ih]
      split <;> rfl

end Brace

/-- What is split off before a brace is split off whatever stands behind the brace. -/
def before (behind : Text) : Text × Text → Text × Text
  | (front, rest) => (front, rest ++ '\x7b' :: behind)

variable (behind : Text)

/-- A word ends at a brace. -/
theorem spanWord_append_brace (text : Text) :
    spanWord (text ++ '\x7b' :: behind) = before behind (spanWord text) := by
  rw [spanWord, takeWhile_append_brace (by decide), dropWhile_append_brace (by decide)]
  rfl

/-- Blanks end at a brace. -/
theorem afterBlanks?_append_brace (text : Text) :
    afterBlanks? (text ++ '\x7b' :: behind) =
      (afterBlanks? text).map (· ++ '\x7b' :: behind) := by
  cases text with
  | nil => rfl
  | cons c rest =>
      rw [List.cons_append, afterBlanks?, afterBlanks?, stripStart,
        dropWhile_append_brace (by decide)]
      split <;> rfl

/-- A name ends at a brace. -/
theorem name?_append_brace (text : Text) :
    name? (text ++ '\x7b' :: behind) = (name? text).map (before behind) := by
  cases text with
  | nil => rfl
  | cons c rest =>
      rw [List.cons_append, name?, name?, nameBy?, nameBy?, takeWhile_append_brace (by decide),
        dropWhile_append_brace (by decide)]
      split <;> rfl

end Text

namespace CSharp

open Text HeaderRule

/-- A name with a mark ends at a brace. -/
theorem markedName?_append_brace (behind text : Text) :
    markedName? (text ++ '\x7b' :: behind) = (markedName? text).map (before behind) := by
  cases text with
  | nil => rfl
  | cons c rest =>
      by_cases hc : c = '@'
      · subst hc
        rw [List.cons_append, markedName?, markedName?, name?_append_brace, Option.map_map,
          Option.map_map]
        rfl
      · have hplain : ∀ tail, markedName? (c :: tail) = name? (c :: tail) := by
          intro tail
          unfold markedName?
          split
          · rename_i heq
            exact absurd (List.cons.inj heq).1 hc
          · rfl
        rw [hplain, List.cons_append, hplain, ← List.cons_append, name?_append_brace]

/-- A name behind blanks ends at a brace. -/
theorem nameBehind?_append_brace (behind text : Text) :
    nameBehind? (text ++ '\x7b' :: behind) = (nameBehind? text).map (before behind) := by
  unfold nameBehind?
  rw [afterBlanks?_append_brace]
  cases afterBlanks? text with
  | none => rfl
  | some inner => exact markedName?_append_brace behind inner

/-- The name of a record ends at a brace. -/
theorem recordName?_append_brace (behind text : Text) :
    recordName? (text ++ '\x7b' :: behind) = (recordName? text).map (before behind) := by
  unfold recordName?
  dsimp only
  rw [Option.map_or, nameBehind?_append_brace, afterBlanks?_append_brace]
  congr 1
  cases afterBlanks? text with
  | none => rfl
  | some inner =>
      simp only [Option.map_some, Option.bind_some, spanWord_append_brace, before]
      split
      · exact nameBehind?_append_brace behind _
      · rfl

/-- A keyword and its name do not go past a brace. -/
theorem header?_append_brace (text behind : Text) :
    header? (text ++ '\x7b' :: behind) =
      (header? text).map fun (keyword, name, rest) =>
        (keyword, name, rest ++ '\x7b' :: behind) := by
  unfold header?
  simp only [spanWord_append_brace, before]
  split
  · split
    · rw [recordName?_append_brace, Option.map_map, Option.map_map]
      rfl
    · rw [nameBehind?_append_brace, Option.map_map, Option.map_map]
      rfl
  · rfl

/-- Behind a whole word no word begins. -/
theorem beginsNoWord_dropWhile (text : Text) : BeginsNoWord (text.dropWhile isWordChar) := by
  intro c hc
  have := List.head?_dropWhile_not isWordChar text
  rw [Option.mem_def.mp hc] at this
  simpa using this

/-- No word character follows a name. -/
theorem ends_name? {text name rest : Text} (h : name? text = some (name, rest)) :
    rest <:+ text ∧ BeginsNoWord rest := by
  obtain ⟨c, tail, rfl, -, -, rfl⟩ := nameBy?_eq_some_iff.mp h
  exact ⟨(List.dropWhile_suffix _).trans (List.suffix_cons _ _), beginsNoWord_dropWhile tail⟩

/-- No word character follows a name with a mark. -/
theorem ends_markedName? {text name rest : Text} (h : markedName? text = some (name, rest)) :
    rest <:+ text ∧ BeginsNoWord rest := by
  unfold markedName? at h
  split at h
  · obtain ⟨⟨inner, behind⟩, hinner, heq⟩ := Option.map_eq_some_iff.mp h
    cases heq
    exact ⟨(ends_name? hinner).1.trans (List.suffix_cons _ _), (ends_name? hinner).2⟩
  · exact ends_name? h

/-- What stands behind blanks is how the text ends. -/
theorem suffix_of_afterBlanks? {text rest : Text} (h : afterBlanks? text = some rest) :
    rest <:+ text := by
  cases text with
  | nil => exact absurd h (by simp [afterBlanks?])
  | cons c tail =>
      rw [afterBlanks?] at h
      split at h
      · cases h
        exact (List.dropWhile_suffix _).trans (List.suffix_cons _ _)
      · exact absurd h (by simp)

/-- No word character follows a name behind blanks. -/
theorem ends_nameBehind? {text name rest : Text} (h : nameBehind? text = some (name, rest)) :
    rest <:+ text ∧ BeginsNoWord rest := by
  obtain ⟨inner, hinner, hname⟩ := Option.bind_eq_some_iff.mp h
  obtain ⟨hsuffix, hbegins⟩ := ends_markedName? hname
  exact ⟨hsuffix.trans (suffix_of_afterBlanks? hinner), hbegins⟩

/-- No word character follows the name of a record. -/
theorem ends_recordName? {text name rest : Text} (h : recordName? text = some (name, rest)) :
    rest <:+ text ∧ BeginsNoWord rest := by
  simp only [recordName?] at h
  rcases Option.or_eq_some_iff.mp h with hlong | ⟨_, hshort⟩
  · obtain ⟨inner, hinner, hname⟩ := Option.bind_eq_some_iff.mp hlong
    split at hname
    · obtain ⟨hsuffix, hbegins⟩ := ends_nameBehind? hname
      exact ⟨(hsuffix.trans (List.dropWhile_suffix _)).trans (suffix_of_afterBlanks? hinner),
        hbegins⟩
    · exact absurd hname (by simp)
  · exact ends_nameBehind? hshort

/-- No word character follows a header's name. -/
theorem ends_header? {text name rest : Text} {keyword : String}
    (h : header? text = some (keyword, name, rest)) : rest <:+ text ∧ BeginsNoWord rest := by
  simp only [header?] at h
  split at h
  · obtain ⟨⟨inner, behind⟩, hfound, heq⟩ := Option.map_eq_some_iff.mp h
    cases heq
    have hends : behind <:+ (spanWord text).2 ∧ BeginsNoWord behind := by
      split at hfound
      · exact ends_recordName? hfound
      · exact ends_nameBehind? hfound
    exact ⟨hends.1.trans (List.dropWhile_suffix _), hends.2⟩
  · exact absurd h (by simp)

/-- A header begins with a word. -/
theorem header?_of_beginsNoWord {text : Text} (h : BeginsNoWord text) : header? text = none := by
  have hword : (spanWord text).1 = [] := by
    cases text with
    | nil => rfl
    | cons c rest => simp [spanWord, h c rfl]
  unfold header?
  simp only [hword]
  rfl

/-- A header is made of whole words and blanks. -/
theorem regular_headerRule : headerRule.Regular where
  begins := header?_of_beginsNoWord
  ends := ends_header?
  stops := header?_append_brace

/-! ## Bodies -/

/-- Where the header of a body ends, there is a brace, and no further header before it. -/
theorem split_of_headerEnd {rest : Text} {stop : Nat} (h : headerEnd rest = (stop, true)) :
    rest = rest.take stop ++ '\x7b' :: rest.drop (stop + 1) ∧ stop < rest.length ∧
      headerRule.next? (rest.take stop) = none := by
  simp only [headerEnd] at h
  split at h
  · exact absurd h (by simp)
  · rename_i hnone
    obtain ⟨hstop, hbody⟩ := Prod.mk.inj h
    obtain ⟨start, hstart⟩ := Option.isSome_iff_exists.mp hbody
    rw [hstart, Option.getD_some] at hstop hnone
    subst hstop
    obtain ⟨front, behind, heq, hlength⟩ := brace_of_bodyStartFrom? hstart
    rw [chars_pieces, List.drop_zero] at heq
    rw [Nat.zero_add] at hlength
    refine ⟨?_, ?_, hnone⟩
    · have hdrop : rest.drop (start + 1) = behind := by
        rw [heq, hlength, ← List.singleton_append, ← List.append_assoc]
        exact List.drop_left' (by simp)
      rw [hdrop, heq, hlength, List.take_left' rfl]
    · rw [heq, hlength]
      simp

/-! ## Declarations -/

/-- Whether a fact is a declaration. -/
def isDeclaration : Fact → Bool
  | .declares .. => true
  | _ => false

/-- The declaration that a header makes. -/
def declarationOf (header : Header) : Fact :=
  .declares (String.ofList (unmark header.name)) (kindOf header.keyword) header.keyword
    (some header.offset)

/-- Facts about an owner declare nothing. -/
theorem filter_isDeclaration_of_allAbout {owner : String} {facts : List Fact}
    (h : AllAbout owner facts) : facts.filter isDeclaration = [] := by
  refine List.filter_eq_nil_iff.mpr fun fact hfact => ?_
  have habout := h fact hfact
  cases fact with
  | declares => exact habout.elim
  | _ => simp [isDeclaration]

/-- Where a text begins no word or stands behind no word, the search from its place is the search
in it. -/
theorem nextAt?_append (front text : Text)
    (h : front.getLast?.any isWordChar = false ∨ BeginsNoWord text) :
    headerRule.nextAt? (front ++ text) front.length =
      headerRule.nextFrom? false front.length text := by
  rw [nextAt?, List.take_left, List.drop_left]
  rcases h with hfront | htext
  · rw [hfront]
  · exact regular_headerRule.nextFrom?_afterWordChar htext _ _

/-- A search finds in a text what is found in the text alone. -/
theorem nextFrom?_eq_map (offset : Nat) (text : Text) :
    headerRule.nextFrom? false offset text = (headerRule.next? text).map (shift offset) :=
  nextFrom?_shift headerRule false offset 0 text

/-- A jump behind the brace of a body passes no header. -/
theorem headersFrom_body (front : Text) {rest : Text} {stop : Nat} (hrest : BeginsNoWord rest)
    (h : headerEnd rest = (stop, true)) :
    ∃ longer, longer ++ rest.drop (stop + 1) = front ++ rest ∧
      longer.length = front.length + stop + 1 ∧
      longer.getLast?.any isWordChar = false ∧
      headerRule.headersFrom (front ++ rest) front.length =
        headerRule.headersFrom (front ++ rest) longer.length := by
  obtain ⟨hsplit, hlength, hnone⟩ := split_of_headerEnd h
  have hstop : (rest.take stop).length = stop := by
    rw [List.length_take]
    omega
  have hwhole : (front ++ rest.take stop ++ ['\x7b']) ++ rest.drop (stop + 1) = front ++ rest := by
    rw [List.append_assoc, List.append_assoc, List.singleton_append, ← hsplit]
  have hplace : (front ++ rest.take stop ++ ['\x7b']).length = front.length + stop + 1 := by
    rw [List.length_append, List.length_append, hstop]
    rfl
  have hlast : (front ++ rest.take stop ++ ['\x7b']).getLast?.any isWordChar = false := by
    rw [List.getLast?_concat]
    decide
  refine ⟨front ++ rest.take stop ++ ['\x7b'], hwhole, hplace, hlast, headersFrom_congr ?_⟩
  -- no header stands between the name and the brace, so both searches go on behind it
  have hbefore : headerRule.nextFrom? false front.length (rest.take stop) = none := by
    rw [nextFrom?_eq_map, hnone, Option.map_none]
  have hbehind := nextAt?_append _ (rest.drop (stop + 1)) (Or.inl hlast)
  rw [hwhole] at hbehind
  rw [hbehind, hplace, nextAt?_append _ _ (Or.inr hrest)]
  conv_lhs => rw [hsplit]
  rw [regular_headerRule.nextFrom?_brace hbefore, hstop]

/-- The first header of a text and those behind it. -/
theorem headersFrom_append {front text : Text} {header : Header}
    (h : front.getLast?.any isWordChar = false ∨ BeginsNoWord text)
    (hnext : headerRule.next? text = some header) :
    ∃ longer, longer ++ header.rest = front ++ text ∧
      longer.length = front.length + (text.length - header.rest.length) ∧
      BeginsNoWord header.rest ∧
      headerRule.headersFrom (front ++ text) front.length =
        shift front.length header ::
          headerRule.headersFrom (longer ++ header.rest) longer.length := by
  obtain ⟨⟨middle, hmiddle⟩, hbegins⟩ := regular_headerRule.rest_of_nextFrom? hnext
  have hat : headerRule.nextAt? (front ++ text) front.length = some (shift front.length header) := by
    rw [nextAt?_append _ _ h, nextFrom?_eq_map, hnext, Option.map_some]
  have hlength : (front ++ text).length - (shift front.length header).rest.length =
      (front ++ middle).length := by
    rw [← hmiddle]
    simp only [shift, List.length_append]
    omega
  refine ⟨front ++ middle, ?_, ?_, hbegins, ?_⟩
  · rw [List.append_assoc, hmiddle]
  · rw [← hmiddle]
    simp only [List.length_append]
    omega
  · rw [headersFrom_of_some hat, hlength, List.append_assoc, hmiddle]

/-- Reading on at a place declares what a plain search from there finds. -/
theorem declarations_factsFrom (front text : Text)
    (h : front.getLast?.any isWordChar = false ∨ BeginsNoWord text) :
    (factsFrom front.length text).filter isDeclaration =
      (headerRule.headersFrom (front ++ text) front.length).map declarationOf := by
  have hcons : ∀ (owner : String) kind word offset (about later : List Fact), AllAbout owner about →
      (.declares owner kind word offset :: about ++ later).filter isDeclaration =
        .declares owner kind word offset :: later.filter isDeclaration := by
    intro owner kind word offset about later habout
    rw [List.cons_append, List.filter_cons_of_pos rfl, List.filter_append,
      filter_isDeclaration_of_allAbout habout, List.nil_append]
  generalize hoffset : front.length = offset
  fun_induction factsFrom offset text generalizing front with
  | case1 offset text hnext =>
      subst hoffset
      rw [headersFrom_of_none (by rw [nextAt?_append _ _ h, nextFrom?_eq_map, hnext, Option.map_none])]
      rfl
  | case2 offset text header hnext owner place behind stop declaration members hmembers hend ih =>
      -- reading goes on behind the brace of the body
      subst hoffset
      obtain ⟨longer, hwhole, hlength, hbegins, hheaders⟩ := headersFrom_append h hnext
      obtain ⟨beyond, hbeyond, hplace, hlast, hjump⟩ := headersFrom_body longer hbegins hend
      have hlater := ih beyond (Or.inl hlast) (by rw [hplace, hlength])
      rw [hheaders, List.map_cons, hjump, ← hbeyond, hplace, hlength, ← hlater]
      exact hcons owner _ _ _ _ _ (allAbout_append.mpr
        ⟨allAbout_headerFacts owner _ _, allAbout_bodyFacts? owner hmembers⟩)
  | case3 offset text header hnext owner place behind stop declaration _ _ ih =>
      -- the body is never closed
      subst hoffset
      obtain ⟨longer, hwhole, hlength, hbegins, hheaders⟩ := headersFrom_append h hnext
      have hlater := ih longer (Or.inr hbegins) hlength
      rw [hheaders, List.map_cons, hlength, ← hlater, ← List.singleton_append,
        ← List.append_assoc]
      exact hcons owner _ _ _ _ _ (allAbout_append.mpr
        ⟨allAbout_headerFacts owner _ _, allAbout_cons.mpr ⟨trivial, allAbout_nil⟩⟩)
  | case4 offset text header hnext owner place behind stop hasBody _ declaration _ ih =>
      -- there is no body
      subst hoffset
      obtain ⟨longer, hwhole, hlength, hbegins, hheaders⟩ := headersFrom_append h hnext
      have hlater := ih longer (Or.inr hbegins) hlength
      rw [hheaders, List.map_cons, hlength, ← hlater]
      exact hcons owner _ _ _ _ _ (allAbout_headerFacts owner _ _)

/-- Whatever braces, parentheses or semicolons a source has or lacks: what is declared, in order, is
what a search from header to header finds in the source without its comments, then without its
directives, and with its literals masked; and no place is declared twice. -/
theorem declarations_facts (source : Text) :
    let searched := (dropDirectives source.stripComments).mask
    (facts source).filter isDeclaration = (headerRule.headersFrom searched 0).map declarationOf ∧
      ((headerRule.headersFrom searched 0).map Header.offset).Pairwise (· < ·) :=
  ⟨declarations_factsFrom [] (content source) (Or.inl rfl),
    (ascending_headersFrom headerRule (content source) 0).2⟩

end CSharp

end ClassDiagram
