import ClassDiagram.Proofs.Text.Tidy
import ClassDiagram.Scan.Group
import ClassDiagram.Scan.Split

/-!
# Level pieces

Pieces are level if their brackets pair up and their equals signs are those of arrows. Every scanner
comes out of level pieces as deep as it went in, so what a scanner finds is decided by the characters
outside of all brackets alone: these are told by a predicate that goes with the pieces.

* `topSegments_level`, `topLevelFrom?_level`, `closingFrom?_level`: the three kinds of scanner pass
  over level pieces.
* `Assigning`: level pieces with plain assignments between them, over which the scanners that search
  for no assignment pass as well.
-/

namespace ClassDiagram

namespace Text

/-- A character that means nothing by itself: no bracket and no equals sign. -/
def isInert (c : Char) : Bool :=
  !(c == '=' || Brackets.all.opens c || Brackets.all.closes false c)

/-- Pieces whose brackets, all among `brackets`, pair up. All characters outside of brackets and
the outermost brackets themselves satisfy `top`. -/
inductive Level (brackets : Brackets) : (Char → Prop) → List Piece → Prop where
  | nil {top : Char → Prop} : Level brackets top []
  | literal {top : Char → Prop} {value : Literal} {rest : List Piece} :
      Level brackets top rest → Level brackets top (.literal value :: rest)
  | char {top : Char → Prop} {c : Char} {rest : List Piece} : isInert c = true → top c →
      Level brackets top rest → Level brackets top (.char c :: rest)
  | arrow {top : Char → Prop} {rest : List Piece} : top '=' → top '>' →
      Level brackets top rest → Level brackets top (.char '=' :: .char '>' :: rest)
  | group {top : Char → Prop} {opener closer : Char} {inner rest : List Piece} :
      closer? opener = some closer → brackets.opens opener = true → top opener → top closer →
      Level brackets (fun _ => True) inner → Level brackets top rest →
      Level brackets top (.char opener :: (inner ++ .char closer :: rest))

/-- Characters spell themselves. -/
@[simp] theorem flatMap_chars_map (text : Text) :
    (text.map Piece.char).flatMap Piece.chars = text := by
  rw [List.flatMap_map]
  exact List.flatMap_singleton' text

/-- The four pairs of brackets. -/
theorem pair_cases {opener closer : Char} (h : closer? opener = some closer) :
    (opener = '\x7b' ∧ closer = '\x7d') ∨ (opener = '(' ∧ closer = ')') ∨
      (opener = '[' ∧ closer = ']') ∨ (opener = '<' ∧ closer = '>') := by
  unfold closer? at h
  split at h
  · exact Or.inl ⟨rfl, (Option.some.inj h).symm⟩
  · exact Or.inr (Or.inl ⟨rfl, (Option.some.inj h).symm⟩)
  · exact Or.inr (Or.inr (Or.inl ⟨rfl, (Option.some.inj h).symm⟩))
  · exact Or.inr (Or.inr (Or.inr ⟨rfl, (Option.some.inj h).symm⟩))
  · exact absurd h (by simp)

namespace Level

variable {brackets : Brackets} {top : Char → Prop} {pieces others : List Piece}

/-- The characters outside of brackets may be taken from a wider class. -/
theorem mono {wider : Char → Prop} (h : Level brackets top pieces)
    (hsub : ∀ c, top c → wider c) : Level brackets wider pieces := by
  induction h generalizing wider with
  | nil => exact .nil
  | literal _ ih => exact .literal (ih hsub)
  | char hc htop _ ih => exact .char hc (hsub _ htop) (ih hsub)
  | arrow he hg _ ih => exact .arrow (hsub _ he) (hsub _ hg) (ih hsub)
  | group hpair hopen ho hc hinner _ _ ih =>
      exact .group hpair hopen (hsub _ ho) (hsub _ hc) hinner (ih hsub)

/-- Levels side by side are one level. -/
theorem append (h : Level brackets top pieces) (hothers : Level brackets top others) :
    Level brackets top (pieces ++ others) := by
  induction h with
  | nil => exact hothers
  | literal _ ih => exact .literal (ih hothers)
  | char hc htop _ ih => exact .char hc htop (ih hothers)
  | arrow he hg _ ih => exact .arrow he hg (ih hothers)
  | group hpair hopen ho hc hinner _ _ ih =>
      rw [List.cons_append, List.append_assoc, List.cons_append]
      exact .group hpair hopen ho hc hinner (ih hothers)

/-- Characters that mean nothing by themselves open no bracket. -/
theorem of_inert {text : Text} (h : ∀ c ∈ text, isInert c = true ∧ top c) :
    Level brackets top (text.map Piece.char) := by
  induction text with
  | nil => exact .nil
  | cons c rest ih =>
      obtain ⟨⟨hinert, htop⟩, hrest⟩ := List.forall_mem_cons.mp h
      exact .char hinert htop (ih hrest)

end Level

/-! ## What a character does to a scanner -/

section Characters

variable {c opener closer : Char}

theorem not_equals_of_inert (h : isInert c = true) : (c == '=') = false := by
  simp only [isInert, Bool.not_eq_true', Bool.or_eq_false_iff] at h
  exact h.1.1

/-- An inert character is none of the eight brackets. -/
theorem ne_bracket_of_inert (h : isInert c = true) :
    (c ≠ '(' ∧ c ≠ '[' ∧ c ≠ '\x7b' ∧ c ≠ '<') ∧ c ≠ ')' ∧ c ≠ ']' ∧ c ≠ '\x7d' ∧ c ≠ '>' := by
  simp only [isInert, Brackets.all, Brackets.opens, Brackets.closes, Bool.not_eq_true',
    Bool.or_eq_false_iff, Bool.true_and, Bool.not_false, Bool.and_true, beq_eq_false_iff_ne] at h
  grind

/-- A character that means nothing by itself keeps the depth. -/
theorem depthAfter_of_inert (h : isInert c = true) (brackets : Brackets) (depth : Nat)
    (afterEquals : Bool) : brackets.depthAfter depth afterEquals c = depth := by
  have hne := ne_bracket_of_inert h
  simp [Brackets.depthAfter, Brackets.opens, Brackets.closes, hne]

theorem opener_ne_equals (h : closer? opener = some closer) : (opener == '=') = false := by
  rcases pair_cases h with ⟨rfl, rfl⟩ | ⟨rfl, rfl⟩ | ⟨rfl, rfl⟩ | ⟨rfl, rfl⟩ <;> decide

theorem closer_ne_equals (h : closer? opener = some closer) : (closer == '=') = false := by
  rcases pair_cases h with ⟨rfl, rfl⟩ | ⟨rfl, rfl⟩ | ⟨rfl, rfl⟩ | ⟨rfl, rfl⟩ <;> decide

/-- No bracket closes itself. -/
theorem closer_ne_opener (h : closer? opener = some closer) : closer ≠ opener := by
  rcases pair_cases h with ⟨rfl, rfl⟩ | ⟨rfl, rfl⟩ | ⟨rfl, rfl⟩ | ⟨rfl, rfl⟩ <;> decide

/-- Every bracket that can be closed is an opening one. -/
theorem opens_all (h : closer? opener = some closer) : Brackets.all.opens opener = true := by
  rcases pair_cases h with ⟨rfl, -⟩ | ⟨rfl, -⟩ | ⟨rfl, -⟩ | ⟨rfl, -⟩ <;> decide

/-- A character that means nothing by itself is neither bracket of a pair. -/
theorem ne_pair_of_inert (h : closer? opener = some closer) (hc : isInert c = true) :
    c ≠ opener ∧ c ≠ closer := by
  have hne := ne_bracket_of_inert hc
  rcases pair_cases h with ⟨rfl, rfl⟩ | ⟨rfl, rfl⟩ | ⟨rfl, rfl⟩ | ⟨rfl, rfl⟩ <;> simp [hne]

/-- The brackets of different pairs are all different. -/
theorem pairs_apart {other otherCloser : Char} (h : closer? opener = some closer)
    (hother : closer? other = some otherCloser) (hne : other ≠ opener) :
    other ≠ closer ∧ otherCloser ≠ opener ∧ otherCloser ≠ closer := by
  rcases pair_cases h with ⟨rfl, rfl⟩ | ⟨rfl, rfl⟩ | ⟨rfl, rfl⟩ | ⟨rfl, rfl⟩ <;>
    rcases pair_cases hother with ⟨rfl, rfl⟩ | ⟨rfl, rfl⟩ | ⟨rfl, rfl⟩ | ⟨rfl, rfl⟩ <;>
      simp at hne ⊢

/-- Brackets that count lead one deeper and back; others lead nowhere. -/
theorem depthAfter_pair (h : closer? opener = some closer) (brackets : Brackets) (depth : Nat) :
    (brackets.opens opener = true ∧ (∀ afterEquals,
        brackets.depthAfter depth afterEquals opener = depth + 1) ∧
        brackets.depthAfter (depth + 1) false closer = depth) ∨
      (brackets.opens opener = false ∧ (∀ afterEquals,
        brackets.depthAfter depth afterEquals opener = depth) ∧
        brackets.depthAfter depth false closer = depth) := by
  obtain ⟨braces, angles⟩ := brackets
  rcases pair_cases h with ⟨rfl, rfl⟩ | ⟨rfl, rfl⟩ | ⟨rfl, rfl⟩ | ⟨rfl, rfl⟩ <;>
    cases braces <;> cases angles <;> simp [Brackets.depthAfter, Brackets.opens, Brackets.closes]

/-- Brackets that count lead one deeper and back. -/
theorem depthAfter_opens (h : closer? opener = some closer) {brackets : Brackets}
    (hopens : brackets.opens opener = true) (depth : Nat) :
    (∀ afterEquals, brackets.depthAfter depth afterEquals opener = depth + 1) ∧
      brackets.depthAfter (depth + 1) false closer = depth := by
  rcases depthAfter_pair h brackets depth with ⟨_, hpaired⟩ | ⟨hnot, _⟩
  · exact hpaired
  · rw [hopens] at hnot
    exact absurd hnot (by simp)

/-- Brackets lead to some depth and back, whether they count or not. -/
theorem exists_depthAfter (h : closer? opener = some closer) (brackets : Brackets) (depth : Nat) :
    ∃ inside, (∀ afterEquals, brackets.depthAfter depth afterEquals opener = inside) ∧
      brackets.depthAfter inside false closer = depth := by
  rcases depthAfter_pair h brackets depth with ⟨_, hpaired⟩ | ⟨_, hpaired⟩
  · exact ⟨depth + 1, hpaired⟩
  · exact ⟨depth, hpaired⟩

/-- An equals sign keeps the depth. -/
theorem depthAfter_equals (brackets : Brackets) (depth : Nat) (afterEquals : Bool) :
    brackets.depthAfter depth afterEquals '=' = depth := by
  simp [Brackets.depthAfter, Brackets.opens, Brackets.closes]

/-- The sign behind the equals sign of an arrow closes nothing. -/
theorem depthAfter_arrow (brackets : Brackets) (depth : Nat) :
    brackets.depthAfter depth true '>' = depth := by
  simp [Brackets.depthAfter, Brackets.opens, Brackets.closes]

end Characters

/-! ## Cutting at separators -/

section Segments

variable {separates : Char → Bool} {brackets counted : Brackets} {depth : Nat}

theorem not_cut {c : Char} (hsep : depth = 0 → separates c = false) :
    ¬ (separates c = true ∧ depth = 0) := by
  rintro ⟨hs, hd⟩
  rw [hsep hd] at hs
  exact Bool.false_ne_true hs

/-- A character that means nothing by itself goes to its segment unless it separates. -/
theorem topSegments_inert {c : Char} (hc : isInert c = true) (rest : List Piece)
    (hsep : depth = 0 → separates c = false) (afterEquals : Bool) :
    topSegments separates counted depth afterEquals (.char c :: rest) =
      attach [c] (topSegments separates counted depth false rest) := by
  rw [topSegments, depthAfter_of_inert hc, not_equals_of_inert hc, if_neg (not_cut hsep)]

/-- An arrow is passed over, unless a sign of it separates. -/
theorem topSegments_arrow (rest : List Piece)
    (hsep : depth = 0 → separates '=' = false ∧ separates '>' = false) :
    topSegments separates counted depth false (.char '=' :: .char '>' :: rest) =
      attach ['=', '>'] (topSegments separates counted depth false rest) := by
  rw [topSegments, topSegments, depthAfter_equals, show ('=' == '=') = true from rfl,
    depthAfter_arrow, show ('>' == '=') = false from rfl, if_neg (not_cut fun hd => (hsep hd).1),
    if_neg (not_cut fun hd => (hsep hd).2), ← attach_append]
  rfl

/-- A group is passed over if what it holds is, at the depth inside of it. -/
theorem topSegments_group {opener closer : Char} {inner : List Piece} (inside : Nat)
    (hpair : closer? opener = some closer)
    (hopen : ∀ afterEquals, counted.depthAfter depth afterEquals opener = inside)
    (hclose : counted.depthAfter inside false closer = depth)
    (hso : inside = 0 → separates opener = false) (hsc : depth = 0 → separates closer = false)
    (hinner : ∀ rest, topSegments separates counted inside false (inner ++ rest) =
      attach (inner.flatMap Piece.chars) (topSegments separates counted inside false rest))
    (rest : List Piece) :
    topSegments separates counted depth false (.char opener :: (inner ++ .char closer :: rest)) =
      attach (opener :: (inner.flatMap Piece.chars ++ [closer]))
        (topSegments separates counted depth false rest) := by
  have hbehind : topSegments separates counted inside false (.char closer :: rest) =
      attach [closer] (topSegments separates counted depth false rest) := by
    rw [topSegments, hclose, closer_ne_equals hpair, if_neg (not_cut hsc)]
  rw [topSegments, hopen, opener_ne_equals hpair, if_neg (not_cut hso), hinner, hbehind,
    ← attach_append, ← attach_append]
  rfl

/-- Level pieces are not cut if no separator stands outside of their brackets. -/
theorem topSegments_level {top : Char → Prop} {pieces : List Piece}
    (h : Level brackets top pieces) (hsep : depth = 0 → ∀ c, top c → separates c = false)
    (rest : List Piece) :
    topSegments separates brackets depth false (pieces ++ rest) =
      attach (pieces.flatMap Piece.chars) (topSegments separates brackets depth false rest) := by
  -- the depth is general: inside of a group nothing separates, whatever may stand there
  induction h generalizing depth rest with
  | nil => exact (attach_nil (topSegments_ne_nil _ _ _ _ _)).symm
  | literal _ ih =>
      rw [List.cons_append, topSegments, ih hsep, ← attach_append]
      rfl
  | char hc htop _ ih =>
      rw [List.cons_append, topSegments_inert hc _ (fun hd => hsep hd _ htop), ih hsep,
        ← attach_append]
      rfl
  | arrow he hg _ ih =>
      rw [List.cons_append, List.cons_append,
        topSegments_arrow _ (fun hd => ⟨hsep hd _ he, hsep hd _ hg⟩), ih hsep, ← attach_append]
      rfl
  | group hpair hopen ho hcl _ _ ihinner ih =>
      obtain ⟨hdo, hdc⟩ := depthAfter_opens hpair hopen depth
      rw [List.cons_append, List.append_assoc, List.cons_append,
        topSegments_group (depth + 1) hpair hdo hdc (fun h => absurd h (Nat.succ_ne_zero _))
          (fun hd => hsep hd _ hcl)
          (ihinner fun h => absurd h (Nat.succ_ne_zero _)), ih hsep, ← attach_append]
      simp [Piece.chars]

/-- Level pieces without separators are not cut, whichever brackets count. -/
theorem topSegments_level_of_none {top : Char → Prop} {pieces : List Piece}
    (h : Level brackets top pieces)
    (hsep : ∀ c ∈ pieces.flatMap Piece.chars, separates c = false) (rest : List Piece) :
    topSegments separates counted depth false (pieces ++ rest) =
      attach (pieces.flatMap Piece.chars) (topSegments separates counted depth false rest) := by
  induction h generalizing depth rest with
  | nil => exact (attach_nil (topSegments_ne_nil _ _ _ _ _)).symm
  | literal _ ih =>
      rw [List.flatMap_cons] at hsep ⊢
      rw [List.cons_append, topSegments, ih fun c hc => hsep c (List.mem_append_right _ hc),
        ← attach_append]
      rfl
  | char hc _ _ ih =>
      rw [List.cons_append, topSegments_inert hc _ (fun _ => hsep _ List.mem_cons_self),
        ih fun c hc => hsep c (List.mem_cons_of_mem _ hc), ← attach_append]
      rfl
  | arrow _ _ _ ih =>
      have hequals : separates '=' = false := hsep _ (by simp [Piece.chars])
      have hgreater : separates '>' = false := hsep _ (by simp [Piece.chars])
      rw [List.cons_append, List.cons_append,
        topSegments_arrow _ (fun _ => ⟨hequals, hgreater⟩),
        ih fun c hc => hsep c (List.mem_cons_of_mem _ (List.mem_cons_of_mem _ hc)),
        ← attach_append]
      rfl
  | @group _ opener closer inner tail hpair _ _ _ _ _ ihinner ih =>
      simp only [List.flatMap_cons, List.flatMap_append, Piece.chars, List.singleton_append,
        List.mem_cons, List.mem_append] at hsep
      have hso : separates opener = false := hsep _ (Or.inl rfl)
      have hsc : separates closer = false := hsep _ (Or.inr (Or.inr (Or.inl rfl)))
      -- the pair may be one that does not count; then the inside is no deeper
      obtain ⟨inside, hdo, hdc⟩ := exists_depthAfter hpair counted depth
      rw [List.cons_append, List.append_assoc, List.cons_append,
        topSegments_group inside hpair hdo hdc (fun _ => hso) (fun _ => hsc)
          (ihinner fun c hc => hsep c (Or.inr (Or.inl hc))),
        ih fun c hc => hsep c (Or.inr (Or.inr (Or.inr hc))), ← attach_append]
      simp [Piece.chars]

end Segments

/-! ## Searching outside of brackets -/

/-- No character that satisfies `top` starts the target; an arrow neither. -/
structure Passes (target : Text) (top : Char → Prop) : Prop where
  char : ∀ c, top c → c ≠ '=' → ∀ previous rest, standsAt target previous (c :: rest) = false
  arrow : top '=' → ∀ previous rest, standsAt target previous ('=' :: '>' :: rest) = false

theorem getLast?_or_cons (c : Char) (text : Text) (previous : Option Char) :
    (c :: text).getLast?.or previous = text.getLast?.or (some c) := by
  rw [List.getLast?_cons]
  cases text.getLast? <;> rfl

/-- The character before a place is the last one of the text before it. -/
theorem getLast?_or_append (front back : Text) (previous : Option Char) :
    (front ++ back).getLast?.or previous = back.getLast?.or (front.getLast?.or previous) := by
  rw [List.getLast?_append, Option.or_assoc]

section Search

variable {brackets : Brackets} {top : Char → Prop} {target : Text} {depth : Nat}
  {previous : Option Char} {pieces : List Piece}

/-- Level pieces do not end in an equals sign, unless a literal does. -/
theorem Level.getLast?_or_ne (h : Level brackets top pieces)
    (hliteral : ∀ value, Piece.literal value ∉ pieces) (hprevious : previous ≠ some '=') :
    (pieces.flatMap Piece.chars).getLast?.or previous ≠ some '=' := by
  induction h generalizing previous with
  | nil => exact hprevious
  | @literal _ value => exact absurd List.mem_cons_self (hliteral value)
  | char hc _ _ ih =>
      rw [List.flatMap_cons, Piece.chars, List.singleton_append, getLast?_or_cons]
      exact ih (fun value h => hliteral value (List.mem_cons_of_mem _ h))
        (by simpa using not_equals_of_inert hc)
  | arrow _ _ _ ih =>
      rw [List.flatMap_cons, List.flatMap_cons, Piece.chars, Piece.chars, List.singleton_append,
        List.singleton_append, getLast?_or_cons, getLast?_or_cons]
      exact ih (fun value h =>
        hliteral value (List.mem_cons_of_mem _ (List.mem_cons_of_mem _ h))) (by decide)
  | group hpair _ _ _ _ _ _ ih =>
      rw [List.flatMap_cons, List.flatMap_append, List.flatMap_cons, Piece.chars, Piece.chars,
        List.singleton_append, List.singleton_append, getLast?_or_cons, getLast?_or_append,
        getLast?_or_cons]
      exact ih (fun value h => hliteral value (by simp [h]))
        (by simpa using closer_ne_equals hpair)

/-- Where the target does not stand, the search goes on with the next character. -/
theorem topLevelFrom?_cons {c : Char} {rest : Text}
    (h : depth = 0 → standsAt target previous (c :: rest) = false) :
    topLevelFrom? target depth previous (c :: rest) =
      (topLevelFrom? target (Brackets.all.depthAfter depth (previous == some '=') c) (some c)
        rest).map (· + 1) := by
  rw [topLevelFrom?, if_neg]
  rintro ⟨hd, hs⟩
  rw [h hd] at hs
  exact Bool.false_ne_true hs

/-- Places found are counted on. -/
theorem map_add_add (found : Option Nat) (m n k : Nat) (h : m + n = k) :
    (found.map (· + m)).map (· + n) = found.map (· + k) := by
  cases found with
  | none => rfl
  | some place =>
      show some (place + m + n) = some (place + k)
      rw [Nat.add_assoc, h]

/-- A search passes over level pieces if its target starts nowhere outside of the brackets. It knows
no literals. -/
theorem topLevelFrom?_level (h : Level brackets top pieces)
    (hliteral : ∀ value, Piece.literal value ∉ pieces) (hpass : depth = 0 → Passes target top)
    (hprevious : previous ≠ some '=') (rest : Text) :
    topLevelFrom? target depth previous (pieces.flatMap Piece.chars ++ rest) =
      (topLevelFrom? target depth ((pieces.flatMap Piece.chars).getLast?.or previous) rest).map
        (· + (pieces.flatMap Piece.chars).length) := by
  -- the character before is carried along, as an equals sign there makes an arrow of the next one
  induction h generalizing depth previous rest with
  | nil => simp
  | @literal _ value => exact absurd List.mem_cons_self (hliteral value)
  | @char top c tail hc htop _ ih =>
      have hstands : depth = 0 →
          standsAt target previous (c :: (tail.flatMap Piece.chars ++ rest)) = false :=
        fun hd => (hpass hd).char c htop (by simpa using not_equals_of_inert hc) _ _
      rw [List.flatMap_cons, Piece.chars, List.singleton_append, List.cons_append,
        topLevelFrom?_cons hstands, depthAfter_of_inert hc,
        ih (fun value h => hliteral value (List.mem_cons_of_mem _ h)) hpass
          (by simpa using not_equals_of_inert hc), getLast?_or_cons]
      exact map_add_add _ _ _ _ rfl
  | @arrow top tail he hg _ ih =>
      have hlater : ∀ value, Piece.literal value ∉ tail := fun value h =>
        hliteral value (List.mem_cons_of_mem _ (List.mem_cons_of_mem _ h))
      rw [List.flatMap_cons, List.flatMap_cons, Piece.chars, Piece.chars, List.singleton_append,
        List.singleton_append, List.cons_append, List.cons_append,
        topLevelFrom?_cons (fun hd => (hpass hd).arrow he _ _), depthAfter_equals,
        topLevelFrom?_cons (fun hd => (hpass hd).char '>' hg (by decide) _ _),
        show (some '=' == some '=') = true from rfl, depthAfter_arrow, ih hlater hpass (by decide),
        getLast?_or_cons, getLast?_or_cons, map_add_add _ _ _ _ rfl]
      exact map_add_add _ _ _ _ rfl
  | @group top opener closer inner tail hpair _ ho _ hinner _ ihinner ih =>
      have hoe : some opener ≠ some '=' := by simpa using opener_ne_equals hpair
      have hce : some closer ≠ some '=' := by simpa using closer_ne_equals hpair
      have hin : ∀ value, Piece.literal value ∉ inner := fun value h => hliteral value (by simp [h])
      have hlater : ∀ value, Piece.literal value ∉ tail := fun value h => hliteral value (by simp [h])
      have hstands : depth = 0 → standsAt target previous (opener ::
          (inner.flatMap Piece.chars ++ closer :: (tail.flatMap Piece.chars ++ rest))) = false :=
        fun hd => (hpass hd).char opener ho (by simpa using hoe) _ _
      have hlast : ((inner.flatMap Piece.chars).getLast?.or (some opener) == some '=') = false :=
        beq_eq_false_iff_ne.mpr (hinner.getLast?_or_ne hin hoe)
      have hdeeper : ∀ {p : Prop}, depth + 1 = 0 → p := fun h => absurd h (Nat.succ_ne_zero _)
      have hspell : (Piece.char opener :: (inner ++ Piece.char closer :: tail)).flatMap Piece.chars =
          opener :: (inner.flatMap Piece.chars ++ closer :: tail.flatMap Piece.chars) := by
        simp [Piece.chars]
      obtain ⟨hdo, hdc⟩ := depthAfter_opens hpair (opens_all hpair) depth
      rw [hspell, List.cons_append, List.append_assoc, List.cons_append,
        topLevelFrom?_cons hstands, hdo, ihinner hin hdeeper hoe, topLevelFrom?_cons hdeeper,
        hlast, hdc, ih hlater hpass hce, getLast?_or_cons, getLast?_or_append, getLast?_or_cons,
        map_add_add _ _ _ _ rfl, map_add_add _ _ _ _ rfl]
      refine map_add_add _ _ _ _ ?_
      simp only [List.length_cons, List.length_append]
      omega

/-- A target that starts nowhere outside of the brackets of a level text is not found. -/
theorem topLevel?_level {text : Text} (h : Level brackets top (text.map Piece.char))
    (hpass : Passes target top) : topLevel? target text = none := by
  have hfrom : topLevelFrom? target 0 none ((text.map Piece.char).flatMap Piece.chars ++ []) = _ :=
    topLevelFrom?_level h (by simp) (fun _ => hpass) (by decide) []
  rw [flatMap_chars_map, List.append_nil] at hfrom
  show (topLevelFrom? target 0 none text).map (· + 0) = none
  rw [hfrom]
  rfl

/-- A target behind a level text in which it starts nowhere is found there. -/
theorem topLevel?_level_append {text : Text} (h : Level brackets top (text.map Piece.char))
    (hpass : Passes target top) {c : Char} {rest : Text}
    (hstands : standsAt target text.getLast? (c :: rest) = true) :
    topLevel? target (text ++ c :: rest) = some text.length := by
  have hfrom : topLevelFrom? target 0 none ((text.map Piece.char).flatMap Piece.chars ++ c :: rest) =
      _ :=
    topLevelFrom?_level h (by simp) (fun _ => hpass) (by decide) (c :: rest)
  rw [flatMap_chars_map, Option.or_none, topLevelFrom?, if_pos ⟨rfl, hstands⟩] at hfrom
  show (topLevelFrom? target 0 none (text ++ c :: rest)).map (· + 0) = some text.length
  rw [hfrom]
  simp

end Search

/-! ## Groups -/

section Groups

variable {brackets : Brackets} {top : Char → Prop} {pieces : List Piece}

/-- The search for the end of a group passes over an arrow, whose end is no closing angle bracket. -/
theorem closingFrom?_arrow {opener closer : Char} (hpair : closer? opener = some closer) (depth : Nat)
    (place : Nat) (rest : List Piece) :
    closingFrom? opener closer depth false place (.char '=' :: .char '>' :: rest) =
      closingFrom? opener closer depth false (place + 2) rest := by
  have hno : '=' ≠ opener ∧ '>' ≠ opener ∧ '=' ≠ closer := by
    rcases pair_cases hpair with ⟨rfl, rfl⟩ | ⟨rfl, rfl⟩ | ⟨rfl, rfl⟩ | ⟨rfl, rfl⟩ <;> decide
  rw [closingFrom?, if_neg hno.1, if_neg hno.2.2, show ('=' == '=') = true from rfl, closingFrom?,
    if_neg hno.2.1]
  by_cases hclose : '>' = closer
  · have hangle : opener = '<' := by
      rcases pair_cases hpair with ⟨rfl, rfl⟩ | ⟨rfl, rfl⟩ | ⟨rfl, rfl⟩ | ⟨rfl, rfl⟩ <;>
        simp at hclose ⊢
    rw [if_pos hclose, if_pos ⟨hangle, rfl⟩]
  · rw [if_neg hclose, show ('>' == '=') = false from rfl]

/-- The search for the end of a group passes over level pieces in it. -/
theorem closingFrom?_level (h : Level brackets top pieces) {opener closer : Char}
    (hpair : closer? opener = some closer) {depth : Nat} (hdepth : 1 ≤ depth) (place : Nat)
    (rest : List Piece) :
    closingFrom? opener closer depth false place (pieces ++ rest) =
      closingFrom? opener closer depth false (place + (pieces.flatMap Piece.chars).length)
        rest := by
  induction h generalizing depth place rest with
  | nil => rfl
  | literal _ ih =>
      rw [List.cons_append, closingFrom?, ih hdepth, List.flatMap_cons, List.length_append,
        Nat.add_assoc]
      rfl
  | @char _ c tail hc _ _ ih =>
      have hne := ne_pair_of_inert hpair hc
      rw [List.cons_append, closingFrom?, if_neg hne.1, if_neg hne.2, not_equals_of_inert hc,
        ih hdepth, List.flatMap_cons, List.length_append, Nat.add_assoc]
      rfl
  | @arrow _ tail _ _ _ ih =>
      have hplace : place + 2 + (tail.flatMap Piece.chars).length =
          place + ((Piece.char '=' :: Piece.char '>' :: tail).flatMap Piece.chars).length := by
        simp only [List.flatMap_cons, Piece.chars, List.length_append, List.length_cons,
          List.length_nil]
        omega
      rw [List.cons_append, List.cons_append, closingFrom?_arrow hpair, ih hdepth, hplace]
  | @group _ other otherCloser inner tail hother _ _ _ _ _ ihinner ih =>
      have hplace : place + 1 + (inner.flatMap Piece.chars).length + 1 +
          (tail.flatMap Piece.chars).length =
          place + ((Piece.char other :: (inner ++ Piece.char otherCloser :: tail)).flatMap
            Piece.chars).length := by
        simp only [List.flatMap_cons, List.flatMap_append, Piece.chars, List.length_append,
          List.length_cons, List.length_nil]
        omega
      rw [List.cons_append, List.append_assoc, List.cons_append, closingFrom?]
      by_cases hsame : other = opener
      -- a group of the same pair is one deeper
      · subst hsame
        obtain rfl : otherCloser = closer := Option.some.inj (hother.symm.trans hpair)
        rw [if_pos rfl, ihinner (by omega), closingFrom?, if_neg (closer_ne_opener hpair),
          if_pos rfl, if_neg (by simp), if_neg (by omega), Nat.add_sub_cancel, ih hdepth, hplace]
      -- a group of another pair does not count
      · have hdiff := pairs_apart hpair hother hsame
        rw [if_neg hsame, if_neg hdiff.1, opener_ne_equals hother, ihinner hdepth, closingFrom?,
          if_neg hdiff.2.1, if_neg hdiff.2.2, closer_ne_equals hother, ih hdepth, hplace]

end Groups

/-! ## Assignments -/

/-- Level pieces with plain assignments between them, each with a space behind its sign. -/
inductive Assigning (brackets : Brackets) (top : Char → Prop) : List Piece → Prop where
  | level {pieces : List Piece} : Level brackets top pieces → Assigning brackets top pieces
  | assign {pieces others : List Piece} : Level brackets top pieces →
      Assigning brackets top others →
      Assigning brackets top (pieces ++ .char '=' :: .char ' ' :: others)

section Assignments

variable {brackets : Brackets} {top : Char → Prop} {pieces others : List Piece}

/-- The characters outside of brackets may be taken from a wider class. -/
theorem Assigning.mono {wider : Char → Prop} (h : Assigning brackets top pieces)
    (hsub : ∀ c, top c → wider c) : Assigning brackets wider pieces := by
  induction h with
  | level hpieces => exact .level (hpieces.mono hsub)
  | assign hfirst _ ih => exact .assign (hfirst.mono hsub) ih

/-- Texts with assignments stay so side by side. -/
theorem Assigning.append (h : Assigning brackets top pieces)
    (hothers : Assigning brackets top others) : Assigning brackets top (pieces ++ others) := by
  induction h with
  | level hpieces =>
      cases hothers with
      | level hothers => exact .level (hpieces.append hothers)
      | assign hfirst hrest =>
          rw [← List.append_assoc]
          exact .assign (hpieces.append hfirst) hrest
  | assign hfirst _ ih =>
      rw [List.append_assoc, List.cons_append, List.cons_append]
      exact .assign hfirst ih

/-- Assignments are passed over where no separator stands outside of the brackets. -/
theorem topSegments_assigning {separates : Char → Bool} (h : Assigning brackets top pieces)
    (hsep : ∀ c, top c → separates c = false) (hequals : separates '=' = false)
    (hspace : separates ' ' = false) (rest : List Piece) :
    topSegments separates brackets 0 false (pieces ++ rest) =
      attach (pieces.flatMap Piece.chars) (topSegments separates brackets 0 false rest) := by
  induction h with
  | level hpieces => exact topSegments_level hpieces (fun _ => hsep) rest
  | @assign first others hfirst _ ih =>
      have hsign : topSegments separates brackets 0 false (.char '=' :: .char ' ' ::
          (others ++ rest)) = attach ['=', ' '] (topSegments separates brackets 0 false
            (others ++ rest)) := by
        rw [topSegments, depthAfter_equals, if_neg (not_cut fun _ => hequals),
          topSegments_inert (by decide) _ fun _ => hspace, ← attach_append]
        rfl
      rw [List.append_assoc, List.cons_append, List.cons_append,
        topSegments_level hfirst (fun _ => hsep), hsign, ih, ← attach_append, ← attach_append]
      simp [Piece.chars]

/-- The search for the end of a group passes over assignments in it. -/
theorem closingFrom?_assigning (h : Assigning brackets top pieces) {opener closer : Char}
    (hpair : closer? opener = some closer) {depth : Nat} (hdepth : 1 ≤ depth) (place : Nat)
    (rest : List Piece) :
    closingFrom? opener closer depth false place (pieces ++ rest) =
      closingFrom? opener closer depth false (place + (pieces.flatMap Piece.chars).length)
        rest := by
  induction h generalizing place with
  | level hpieces => exact closingFrom?_level hpieces hpair hdepth place rest
  | @assign first others hfirst _ ih =>
      have hno : '=' ≠ opener ∧ '=' ≠ closer ∧ ' ' ≠ opener ∧ ' ' ≠ closer := by
        rcases pair_cases hpair with ⟨rfl, rfl⟩ | ⟨rfl, rfl⟩ | ⟨rfl, rfl⟩ | ⟨rfl, rfl⟩ <;> decide
      rw [List.append_assoc, List.cons_append, List.cons_append,
        closingFrom?_level hfirst hpair hdepth, closingFrom?, if_neg hno.1, if_neg hno.2.1,
        closingFrom?, if_neg hno.2.2.1, if_neg hno.2.2.2, show (' ' == '=') = false from rfl, ih]
      congr 1
      simp only [List.flatMap_append, List.flatMap_cons, Piece.chars, List.length_append,
        List.length_cons, List.length_nil]
      omega

/-- A group of pieces ends where its contents end. -/
theorem closingFrom?_group (h : Assigning brackets top pieces) {opener closer : Char}
    (hpair : closer? opener = some closer) (rest : List Piece) :
    closingFrom? opener closer 0 false 0 (.char opener :: (pieces ++ .char closer :: rest)) =
      some ((pieces.flatMap Piece.chars).length + 1) := by
  rw [closingFrom?, if_pos rfl, closingFrom?_assigning h hpair (Nat.le_refl 1), closingFrom?,
    if_neg (closer_ne_opener hpair), if_pos rfl, if_neg (by simp), if_pos (Nat.le_refl 1)]
  exact congrArg some (by omega)

end Assignments

end Text

end ClassDiagram
