import ClassDiagram.Proofs.Scan.Places

/-!
# Which groups are closed, and where

The search for the end of a group counts how many groups of its pair are open. A grammar says the
same without counting: a group is an opening bracket, items, and a bracket that closes it, and an
item is a literal, a group of the same pair, the `>` of an arrow between angles, or a character that
is no bracket of the pair.

* `Items`, `GroupAt`: the grammar.
* `closingOnward?`: the search from a place on, with one equation for each kind of item.
* `closingOnward?_of_items`: items are passed over at every depth.
* `exists_items_of_closingOnward?`: what is found from a depth on stands behind items.
* `closingAt?_eq_some_iff`, `closingAtIndex?_groups`: the end that is found is the end of the group.
-/

namespace ClassDiagram

namespace Text

variable {text : Text} {opener closer : Char} {depth place start stop close last found : Nat}

/-! ## The grammar of groups -/

/-- Whether the `>` of an arrow stands at a place: right before it stands an equals sign. -/
def ArrowAt (text : Text) (place : Nat) : Prop :=
  text[place]? = some '>' ∧ ∃ before, place = before + 1 ∧ text[before]? = some '='

/-- Whether a bracket that closes groups of a pair stands at a place. The `>` of an arrow closes
none. -/
def ClosesAt (text : Text) (opener closer : Char) (place : Nat) : Prop :=
  text[place]? = some closer ∧ ¬ (opener = '<' ∧ ArrowAt text place)

/-- What stands in a group of a pair from a place up to another: any number of literals, groups of
the same pair, `>` of arrows if the pair is that of the angles, and characters other than the two
brackets. Where a literal begins, no other item does. -/
inductive Items (text : Text) (opener closer : Char) : Nat → Nat → Prop where
  | nil {place : Nat} : Items text opener closer place place
  | literal {start stop last : Nat} : Literal.endAt? text start = some stop →
      Items text opener closer stop last → Items text opener closer start last
  | group {start close last : Nat} : text[start]? = some opener →
      Items text opener closer (start + 1) close → ClosesAt text opener closer close →
      Items text opener closer (close + 1) last → Items text opener closer start last
  | arrow {start last : Nat} : opener = '<' → ArrowAt text start →
      Items text opener closer (start + 1) last → Items text opener closer start last
  | char {c : Char} {start last : Nat} : Literal.endAt? text start = none →
      text[start]? = some c → c ≠ opener → c ≠ closer →
      Items text opener closer (start + 1) last → Items text opener closer start last

/-- Whether a group stands in a text from the bracket at `start` to the bracket at `close`. -/
def GroupAt (text : Text) (start close : Nat) : Prop :=
  ∃ opener closer, text[start]? = some opener ∧ closer? opener = some closer ∧
    Items text opener closer (start + 1) close ∧ ClosesAt text opener closer close

/-- Items go forward in the text. -/
theorem Items.le (h : Items text opener closer start last) : start ≤ last := by
  induction h with
  | nil => exact Nat.le_refl _
  | literal hend _ ih => exact Nat.le_trans (Nat.le_of_lt (Literal.lt_of_endAt? hend).1) ih
  | group _ _ _ _ ihinner ih => omega
  | arrow _ _ _ ih => omega
  | char _ _ _ _ _ ih => omega

/-! ## The search from a place on -/

/-- Whether an equals sign stands right before a place. -/
def afterEquals (text : Text) (place : Nat) : Bool :=
  place ≠ 0 && text[place - 1]? == some '='

/-- Behind a character it is known whether it was an equals sign. -/
theorem afterEquals_succ {c : Char} (h : text[place]? = some c) :
    afterEquals text (place + 1) = (c == '=') := by
  simp [afterEquals, h]

/-- Behind a literal stands the end of the text or a line break, or it ends with its quote. -/
theorem afterEquals_of_endAt? (h : Literal.endAt? text place = some stop) :
    text[stop]? = none ∨ text[stop]? = some '\n' ∨ afterEquals text stop = false := by
  obtain ⟨value, rest, hread, rfl⟩ := Literal.endAt?_eq_some_iff.mp h
  have hrest : text[place + value.chars.length]? = rest.head? := by
    rw [← Literal.drop_of_read? hread, List.head?_drop]
  rw [hrest]
  rcases Literal.read?_end hread with rfl | ⟨later, rfl⟩ | hlast
  · exact Or.inl rfl
  · exact Or.inr (Or.inl rfl)
  · have hpos := value.length_chars_pos
    have hbefore : text[place + value.chars.length - 1]? = some value.quote := by
      rw [Nat.add_sub_assoc hpos, ← List.getElem?_drop, Literal.eq_chars_append_of_read? hread,
        List.getElem?_append_left (by omega), ← List.getLast?_eq_getElem?, Literal.chars,
        List.getLast?_append, List.getLast?_cons, hlast]
      rfl
    have hquote : value.quote ≠ '=' := by
      rintro heq
      exact absurd (Literal.read?_eq_some_iff.mp hread).1.isQuote (by rw [heq]; decide)
    exact Or.inr (Or.inr (by simp [afterEquals, hbefore, hquote]))

/-- Where the groups of a pair that are open at a place come to an end. -/
def closingOnward? (text : Text) (opener closer : Char) (depth place : Nat) : Option Nat :=
  closingFrom? opener closer depth (afterEquals text place) place (pieces true (text.drop place))

/-- The place at which a search begins is a mere offset. -/
theorem closingFrom?_add (opener closer : Char) (depth : Nat) (behind : Bool) (place offset : Nat)
    (pieces : List Piece) :
    closingFrom? opener closer depth behind (place + offset) pieces =
      (closingFrom? opener closer depth behind place pieces).map (· + offset) := by
  fun_induction closingFrom? opener closer depth behind place pieces with
  | case1 => rfl
  | case2 _ _ _ _ _ ih => rw [closingFrom?, ← ih, Nat.add_right_comm]
  | case3 _ _ _ _ ih => rw [closingFrom?, if_pos rfl, ← ih, Nat.add_right_comm]
  | case4 _ _ _ _ harrow hopener ih =>
      rw [closingFrom?, if_neg hopener, if_pos rfl, if_pos harrow, ← ih, Nat.add_right_comm]
  | case5 _ _ _ _ harrow hdepth hopener =>
      rw [closingFrom?, if_neg hopener, if_pos rfl, if_neg harrow, if_pos hdepth]
      rfl
  | case6 _ _ _ _ harrow hdepth hopener ih =>
      rw [closingFrom?, if_neg hopener, if_pos rfl, if_neg harrow, if_neg hdepth, ← ih,
        Nat.add_right_comm]
  | case7 _ _ _ _ _ hopener hcloser ih =>
      rw [closingFrom?, if_neg hopener, if_neg hcloser, ← ih, Nat.add_right_comm]

/-- Whether an equals sign came before only counts for a `>`. -/
theorem closingFrom?_of_head (hpair : closer? opener = some closer) {pieces : List Piece}
    (h : pieces.head? ≠ some (.char '>')) (behind other : Bool) :
    closingFrom? opener closer depth behind place pieces =
      closingFrom? opener closer depth other place pieces := by
  cases pieces with
  | nil => rfl
  | cons piece rest =>
      cases piece with
      | literal value => rfl
      | char c =>
          have hangle : c = closer → opener ≠ '<' := by
            rintro rfl rfl
            cases hpair
            exact h rfl
          rw [closingFrom?, closingFrom?]
          split
          · rfl
          · split
            · rename_i hcloser
              have hno : ∀ flag : Bool, ¬ (opener = '<' ∧ flag = true) :=
                fun _ harrow => hangle hcloser harrow.1
              rw [if_neg (hno behind), if_neg (hno other)]
            · rfl

/-! ## What an item does to the search -/

/-- Behind the text, no bracket is found. -/
theorem closingOnward?_of_length_le (h : text.length ≤ place) :
    closingOnward? text opener closer depth place = none := by
  rw [closingOnward?, List.drop_eq_nil_of_le h, pieces_nil]
  rfl

/-- The search passes over a literal. -/
theorem closingOnward?_literal (hpair : closer? opener = some closer)
    (h : Literal.endAt? text place = some stop) :
    closingOnward? text opener closer depth place =
      closingOnward? text opener closer depth stop := by
  obtain ⟨value, rest, hread, rfl⟩ := Literal.endAt?_eq_some_iff.mp h
  rw [closingOnward?, pieces_of_literal ((Literal.cut?_true _).trans hread), closingFrom?,
    closingOnward?, Literal.drop_of_read? hread]
  rcases afterEquals_of_endAt? h with hnone | hbreak | hbehind
  · have hrest : rest = [] := by
      rw [← Literal.drop_of_read? hread]
      exact List.drop_eq_nil_of_le (List.getElem?_eq_none_iff.mp hnone)
    rw [hrest, pieces_nil]
    rfl
  · refine closingFrom?_of_head hpair ?_ _ _
    rw [← List.head?_drop, Literal.drop_of_read? hread] at hbreak
    obtain ⟨later, rfl⟩ := List.head?_eq_some_iff.mp hbreak
    rw [pieces_cons (by decide) (by decide)]
    simp
  · rw [hbehind]

/-- Where no literal begins, the search goes on behind one character. -/
theorem closingOnward?_eq (hpair : closer? opener = some closer) {c : Char}
    (hnone : Literal.endAt? text place = none) (h : text[place]? = some c) :
    closingOnward? text opener closer depth place =
      if c = opener then closingOnward? text opener closer (depth + 1) (place + 1)
      else if c = closer then
        if opener = '<' ∧ afterEquals text place then
          closingOnward? text opener closer depth (place + 1)
        else if depth ≤ 1 then some place
        else closingOnward? text opener closer (depth - 1) (place + 1)
      else closingOnward? text opener closer depth (place + 1) := by
  simp only [closingOnward?, pieces_drop_of_char hnone h, closingFrom?, afterEquals_succ h]
  split
  · rename_i hopener
    rw [hopener, opener_ne_equals hpair]
  · split
    · rename_i hcloser
      rw [hcloser, closer_ne_equals hpair]
    · rfl

/-- An opening bracket makes one more to close. -/
theorem closingOnward?_opener (hpair : closer? opener = some closer)
    (h : text[place]? = some opener) :
    closingOnward? text opener closer depth place =
      closingOnward? text opener closer (depth + 1) (place + 1) := by
  obtain ⟨hquote, hmark, -⟩ := opener_facts hpair
  rw [closingOnward?_eq hpair (Literal.endAt?_of_other hquote hmark h) h, if_pos rfl]

/-- The search passes over any other character. -/
theorem closingOnward?_char (hpair : closer? opener = some closer) {c : Char}
    (hnone : Literal.endAt? text place = none) (h : text[place]? = some c) (hopener : c ≠ opener)
    (hcloser : c ≠ closer) :
    closingOnward? text opener closer depth place =
      closingOnward? text opener closer depth (place + 1) := by
  rw [closingOnward?_eq hpair hnone h, if_neg hopener, if_neg hcloser]

/-- An angle bracket behind an equals sign is an arrow. -/
theorem arrowAt_iff (h : text[place]? = some '>') :
    ArrowAt text place ↔ afterEquals text place = true := by
  cases place with
  | zero => simp [ArrowAt, afterEquals]
  | succ before => simp [ArrowAt, afterEquals, h]

/-- The search passes over an arrow. -/
theorem closingOnward?_arrow (hpair : closer? '<' = some closer) (h : ArrowAt text place) :
    closingOnward? text '<' closer depth place =
      closingOnward? text '<' closer depth (place + 1) := by
  cases hpair
  have hnone := Literal.endAt?_of_other (by decide) (by decide) h.1
  rw [closingOnward?_eq rfl hnone h.1, if_neg (by decide), if_pos rfl,
    if_pos ⟨rfl, (arrowAt_iff h.1).mp h⟩]

/-- A closing bracket ends the search or makes one fewer to close. -/
theorem closingOnward?_closer (hpair : closer? opener = some closer)
    (h : ClosesAt text opener closer place) :
    closingOnward? text opener closer (depth + 1) place =
      if depth = 0 then some place else closingOnward? text opener closer depth (place + 1) := by
  obtain ⟨hcloser, harrow⟩ := h
  obtain ⟨hquote, hmark, -⟩ := closer_facts hpair
  have hflag : ¬ (opener = '<' ∧ afterEquals text place = true) := by
    rintro ⟨rfl, hbehind⟩
    cases hpair
    exact harrow ⟨rfl, (arrowAt_iff hcloser).mpr hbehind⟩
  rw [closingOnward?_eq hpair (Literal.endAt?_of_other hquote hmark hcloser) hcloser,
    if_neg (closer_ne_opener hpair), if_pos rfl, if_neg hflag, Nat.add_sub_cancel]
  exact if_congr (by omega) rfl rfl

/-! ## The search and the grammar -/

/-- Items are passed over, whatever is open. -/
theorem closingOnward?_of_items (hpair : closer? opener = some closer)
    (h : Items text opener closer start last) (depth : Nat) :
    closingOnward? text opener closer (depth + 1) start =
      closingOnward? text opener closer (depth + 1) last := by
  induction h generalizing depth with
  | nil => rfl
  | literal hend _ ih => rw [closingOnward?_literal hpair hend, ih]
  | group hopener _ hcloses _ ihinner ih =>
      rw [closingOnward?_opener hpair hopener, ihinner, closingOnward?_closer hpair hcloses,
        if_neg (Nat.succ_ne_zero depth), ih]
  | arrow hangle harrow _ ih =>
      subst hangle
      rw [closingOnward?_arrow hpair harrow, ih]
  | char hnone hc hopener hcloser _ ih =>
      rw [closingOnward?_char hpair hnone hc hopener hcloser, ih]

/-- What can begin at a place of a text: one of the four kinds of item, or the end of a group. -/
theorem place_cases (opener closer : Char) (h : place < text.length) :
    (∃ stop, Literal.endAt? text place = some stop) ∨ text[place]? = some opener ∨
      (opener = '<' ∧ ArrowAt text place) ∨ ClosesAt text opener closer place ∨
      ∃ c, Literal.endAt? text place = none ∧ text[place]? = some c ∧ c ≠ opener ∧ c ≠ closer := by
  cases hliteral : Literal.endAt? text place with
  | some stop => exact Or.inl ⟨stop, rfl⟩
  | none =>
      have hc : text[place]? = some text[place] := List.getElem?_eq_getElem h
      by_cases hopener : text[place] = opener
      · exact Or.inr (Or.inl (hc.trans (congrArg some hopener)))
      · by_cases harrow : opener = '<' ∧ ArrowAt text place
        · exact Or.inr (Or.inr (Or.inl harrow))
        · refine Or.inr (Or.inr (Or.inr ?_))
          by_cases hcloser : text[place] = closer
          · exact Or.inl ⟨hc.trans (congrArg some hcloser), harrow⟩
          · exact Or.inr ⟨text[place], rfl, hc, hopener, hcloser⟩

/-- If the open groups come to an end, the innermost of them does so behind items, and the others
do behind its bracket. -/
theorem exists_items_of_closingOnward? (hpair : closer? opener = some closer)
    (h : closingOnward? text opener closer (depth + 1) start = some found) :
    ∃ close, Items text opener closer start close ∧ ClosesAt text opener closer close ∧
      (if depth = 0 then some close else closingOnward? text opener closer depth (close + 1)) =
        some found := by
  -- the text that is left shrinks; behind an inner group the search is at the same depth again
  induction hroom : text.length - start using Nat.strongRecOn generalizing start depth with
  | ind room ih =>
      by_cases hend : text.length ≤ start
      · rw [closingOnward?_of_length_le hend] at h
        exact absurd h (by simp)
      rcases place_cases opener closer (Nat.lt_of_not_le hend) with
        ⟨stop, hliteral⟩ | hopener | ⟨rfl, harrow⟩ | hcloses | ⟨c, hnone, hc, hopener, hcloser⟩
      · rw [closingOnward?_literal hpair hliteral] at h
        have hlt := (Literal.lt_of_endAt? hliteral).1
        obtain ⟨close, hitems, hrest⟩ := ih (text.length - stop) (by omega) h rfl
        exact ⟨close, .literal hliteral hitems, hrest⟩
      · rw [closingOnward?_opener hpair hopener] at h
        obtain ⟨inner, hinner, hcloses, hlater⟩ := ih (text.length - (start + 1)) (by omega) h rfl
        rw [if_neg (Nat.succ_ne_zero depth)] at hlater
        have hle := hinner.le
        obtain ⟨close, hitems, hrest⟩ := ih (text.length - (inner + 1)) (by omega) hlater rfl
        exact ⟨close, .group hopener hinner hcloses hitems, hrest⟩
      · rw [closingOnward?_arrow hpair harrow] at h
        obtain ⟨close, hitems, hrest⟩ := ih (text.length - (start + 1)) (by omega) h rfl
        exact ⟨close, .arrow rfl harrow hitems, hrest⟩
      · rw [closingOnward?_closer hpair hcloses] at h
        exact ⟨start, .nil, hcloses, h⟩
      · rw [closingOnward?_char hpair hnone hc hopener hcloser] at h
        obtain ⟨close, hitems, hrest⟩ := ih (text.length - (start + 1)) (by omega) h rfl
        exact ⟨close, .char hnone hc hopener hcloser hitems, hrest⟩

/-- The end of a group is searched from behind the bracket that opens it. -/
theorem closingAt?_eq (text : Text) (start : Nat) :
    closingAt? text start =
      text[start]?.bind fun opener => (closer? opener).bind fun closer =>
        closingOnward? text opener closer 1 (start + 1) := by
  rw [closingAt?]
  cases hc : text[start]? with
  | none =>
      rw [List.drop_eq_nil_of_le (List.getElem?_eq_none_iff.mp hc)]
      rfl
  | some opener =>
      obtain ⟨hstart, rfl⟩ := List.getElem?_eq_some_iff.mp hc
      rw [List.drop_eq_getElem_cons hstart, closing?, Option.bind_some]
      cases hpair : closer? text[start] with
      | none => rfl
      | some closer =>
          obtain ⟨hquote, hmark, -⟩ := opener_facts hpair
          rw [Option.bind_some, Option.bind_some, pieces_cons hquote hmark, closingFrom?,
            if_pos rfl, ← closingFrom?_add, closingOnward?, afterEquals_succ hc,
            opener_ne_equals hpair, Nat.zero_add, Nat.add_comm 1]

/-- The bracket that is found is the one that ends the group. -/
theorem closingAt?_eq_some_iff : closingAt? text start = some close ↔ GroupAt text start close := by
  rw [closingAt?_eq]
  constructor
  · intro h
    obtain ⟨opener, hopener, hbind⟩ := Option.bind_eq_some_iff.mp h
    obtain ⟨closer, hpair, hclose⟩ := Option.bind_eq_some_iff.mp hbind
    obtain ⟨found, hitems, hcloses, hfound⟩ := exists_items_of_closingOnward? hpair hclose
    obtain rfl : found = close := Option.some.inj hfound
    exact ⟨opener, closer, hopener, hpair, hitems, hcloses⟩
  · rintro ⟨opener, closer, hopener, hpair, hitems, hcloses⟩
    rw [hopener, Option.bind_some, hpair, Option.bind_some, closingOnward?_of_items hpair hitems,
      closingOnward?_closer hpair hcloses, if_pos rfl]

/-- A negative index finds nothing, any other finds the end of its group. -/
theorem closingAtIndex?_eq_some_iff {index : Int} :
    closingAtIndex? text index = some close ↔
      ∃ start : Nat, index = start ∧ GroupAt text start close := by
  cases index with
  | ofNat place =>
      rw [closingAtIndex?, closingAt?_eq_some_iff]
      constructor
      · exact fun hgroup => ⟨place, rfl, hgroup⟩
      · rintro ⟨start, hstart, hgroup⟩
        rwa [Int.ofNat.inj hstart]
  | negSucc before =>
      refine ⟨fun h => absurd h (by simp [closingAtIndex?]), ?_⟩
      rintro ⟨start, hstart, -⟩
      exact absurd hstart (by simp)

/-- A group begins inside of the text. -/
theorem GroupAt.lt (h : GroupAt text start close) : start < text.length := by
  obtain ⟨opener, -, hopener, -⟩ := h
  exact (List.getElem?_eq_some_iff.mp hopener).1

/-- The end of a group is found exactly where the grammar puts it: there is at most one, and none is
found if there is none or if the index lies outside of the text. -/
theorem closingAtIndex?_groups (text : Text) (index : Int) :
    (∀ close : Nat, closingAtIndex? text index = some close ↔
        ∃ start : Nat, index = start ∧ GroupAt text start close) ∧
      (∀ start close other : Nat, GroupAt text start close → GroupAt text start other →
        close = other) ∧
      (closingAtIndex? text index = none ↔
        ∀ start close : Nat, index = start → ¬ GroupAt text start close) ∧
      (index < 0 ∨ text.length ≤ index → closingAtIndex? text index = none) := by
  have hnone : closingAtIndex? text index = none ↔
      ∀ start close : Nat, index = start → ¬ GroupAt text start close := by
    rw [Option.eq_none_iff_forall_ne_some]
    constructor
    · intro h start close hstart hgroup
      exact h close (closingAtIndex?_eq_some_iff.mpr ⟨start, hstart, hgroup⟩)
    · intro h close hclose
      obtain ⟨start, hstart, hgroup⟩ := closingAtIndex?_eq_some_iff.mp hclose
      exact h start close hstart hgroup
  refine ⟨fun close => closingAtIndex?_eq_some_iff, ?_, hnone, ?_⟩
  · intro start close other hclose hother
    exact Option.some.inj
      ((closingAt?_eq_some_iff.mpr hclose).symm.trans (closingAt?_eq_some_iff.mpr hother))
  · intro hindex
    refine hnone.mpr fun start close hstart hgroup => ?_
    have := hgroup.lt
    omega

/-- An arrow, a literal with a bracket in it, a group inside and a bracket of another pair. -/
def nestedAngles : Text := "<k=>'>'<v>)>".toList

theorem closingAtIndex?_groups_nestedAngles :
    GroupAt nestedAngles 0 11 ∧ (∀ other, GroupAt nestedAngles 0 other → 11 = other) ∧
      closingAtIndex? nestedAngles (-1) = none := by
  obtain ⟨hclose, hunique, -, -⟩ := closingAtIndex?_groups nestedAngles 0
  obtain ⟨start, hstart, hgroup⟩ := (hclose 11).mp (by decide +kernel)
  obtain rfl : start = 0 := by omega
  exact ⟨hgroup, fun other => hunique 0 11 other hgroup,
    (closingAtIndex?_groups nestedAngles (-1)).2.2.2 (Or.inl (by decide))⟩

end Text

end ClassDiagram
