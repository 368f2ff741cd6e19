import ClassDiagram.Proofs.Scan.Reread

/-!
# Cutters

A cutter goes through the pieces of a text with a state and cuts at some of the characters that it
meets. If it restarts, that is, if behind a cut it goes on as from its start, then all that it does
is told by its first cut: what stands before it is a segment, and what stands behind it is cut as a
text of its own. So a segment that is cut out of a text is left whole when it is cut again.

* `Cutting`: a text in segments, with the characters between them.
* `Cutter.segments`, `Cutter.Whole`, `Cutter.CutsAt`: the segments, and where the cuts are.
* `Cutter.whole_or_cut`, `Cutter.induct`: the first cut, and induction from cut to cut.
* `Cutter.exists_cutting`: segments and cuts are the text.
* `Cutter.whole_of_mem_segments`: no segment is cut again.
-/

namespace ClassDiagram

namespace Text

/-! ## Segments and the characters between them -/

/-- A text in segments: the first one, and the others, each with the character at which the text is
cut before it. -/
structure Cutting where
  first : Text
  rest : List (Char × Text)

namespace Cutting

/-- The text that is cut. -/
def text (cutting : Cutting) : Text :=
  cutting.first ++ cutting.rest.flatMap fun cut => cut.1 :: cut.2

/-- The segments, in order. -/
def segments (cutting : Cutting) : List Text := cutting.first :: cutting.rest.map Prod.snd

/-- Where the text is cut if the first cut is at `place`. -/
def placesFrom (place : Nat) : List (Char × Text) → List Nat
  | [] => []
  | cut :: rest => place :: placesFrom (place + 1 + cut.2.length) rest

/-- Where the text is cut. -/
def places (cutting : Cutting) : List Nat := placesFrom cutting.first.length cutting.rest

/-- A segment and a cut before all others. -/
def behind (front : Text) (c : Char) (cutting : Cutting) : Cutting :=
  ⟨front, (c, cutting.first) :: cutting.rest⟩

variable (front : Text) (c : Char) (cutting : Cutting)

theorem text_behind : (behind front c cutting).text = front ++ c :: cutting.text := rfl

theorem segments_behind : (behind front c cutting).segments = front :: cutting.segments := rfl

/-- Counted from further on, the places are that much further on. -/
theorem placesFrom_add (place more : Nat) (rest : List (Char × Text)) :
    placesFrom (place + more) rest = (placesFrom place rest).map (· + more) := by
  induction rest generalizing place with
  | nil => rfl
  | cons cut rest ih =>
      rw [placesFrom, placesFrom, List.map_cons, ← ih, Nat.add_right_comm place more 1,
        Nat.add_right_comm _ more]

/-- The places of a cutting are its first one and those of the rest, moved behind it. -/
theorem mem_places_behind {place : Nat} :
    place ∈ (behind front c cutting).places ↔
      place = front.length ∨ ∃ later ∈ cutting.places, later + (front.length + 1) = place := by
  have hplaces : (behind front c cutting).places =
      front.length :: cutting.places.map (· + (front.length + 1)) := by
    rw [places, places, ← placesFrom_add, Nat.add_comm cutting.first.length]
    rfl
  rw [hplaces, List.mem_cons, List.mem_map]

/-- If all cuts are at the same character, joining the segments with it gives the text. -/
theorem join_segments (h : ∀ cut ∈ cutting.rest, cut.1 = c) :
    join [c] cutting.segments = cutting.text := by
  obtain ⟨first, rest⟩ := cutting
  induction rest generalizing first with
  | nil => simp [join, segments, text]
  | cons cut rest ih =>
      obtain ⟨hcut, hrest⟩ := List.forall_mem_cons.mp h
      have hlater := ih cut.2 hrest
      rw [join] at hlater ⊢
      show [c].intercalate (first :: (⟨cut.2, rest⟩ : Cutting).segments) = _
      rw [segments, List.intercalate_cons_cons, ← segments, hlater, ← hcut]
      simp [text]

end Cutting

/-! ## Cutters -/

end Text

/-- A reader that goes through pieces with a state and cuts at some of the characters. -/
structure Cutter (State : Type) where
  start : State
  /-- The state behind a literal. -/
  pass : State → State
  /-- The state behind a character. -/
  step : State → Char → State
  /-- Whether a character is cut at, by the state behind it. -/
  cuts : State → Char → Bool

namespace Cutter

open Text

variable {State : Type} (cutter : Cutter State)

/-- The state behind some pieces. -/
def run (state : State) : List Piece → State
  | [] => state
  | .literal _ :: rest => run (cutter.pass state) rest
  | .char c :: rest => run (cutter.step state c) rest

/-- Whether a character is cut at behind some pieces. -/
def cutsBehind (state : State) (front : List Piece) (c : Char) : Bool :=
  cutter.cuts (cutter.step (cutter.run state front) c) c

/-- The segments between the characters that are cut at. -/
def segments (state : State) : List Piece → List Text
  | [] => [[]]
  | .literal value :: rest => attach value.chars (segments (cutter.pass state) rest)
  | .char c :: rest =>
    if cutter.cuts (cutter.step state c) c then [] :: segments (cutter.step state c) rest
    else attach [c] (segments (cutter.step state c) rest)

/-- Whether no character of some pieces is cut at. -/
def Whole (state : State) (read : List Piece) : Prop :=
  ∀ front c back, read = front ++ .char c :: back → cutter.cutsBehind state front c = false

/-- Whether the character at a place is cut at. -/
def CutsAt (read : List Piece) (place : Nat) : Prop :=
  ∃ front c back, read = front ++ .char c :: back ∧ (front.flatMap Piece.chars).length = place ∧
    cutter.cutsBehind cutter.start front c = true

/-- Whether the same characters are cut at from two states. -/
def Alike (state other : State) : Prop :=
  ∀ front c, cutter.cutsBehind state front c = cutter.cutsBehind other front c

/-- Whether the cutter goes on behind every cut as from its start. -/
def Restarts : Prop :=
  ∀ state c, cutter.cuts (cutter.step state c) c = true →
    cutter.Alike (cutter.step state c) cutter.start

variable {cutter} {state other : State} {read front back : List Piece} {c : Char}

/-- A cutter goes through pieces from left to right. -/
theorem run_append (state : State) (front back : List Piece) :
    cutter.run state (front ++ back) = cutter.run (cutter.run state front) back := by
  induction front generalizing state with
  | nil => rfl
  | cons piece front ih =>
      cases piece with
      | literal value => exact ih _
      | char d => exact ih _

/-- Where a cutter cuts depends on where it has got to. -/
theorem cutsBehind_append (state : State) (front back : List Piece) (c : Char) :
    cutter.cutsBehind state (front ++ back) c =
      cutter.cutsBehind (cutter.run state front) back c := by
  rw [cutsBehind, run_append, cutsBehind]

/-! ### Pieces without cuts -/

theorem whole_nil : cutter.Whole state [] :=
  fun front _ _ h => absurd h (by simp)

/-- No literal is cut. -/
theorem whole_literal_cons {value : Literal} :
    cutter.Whole state (.literal value :: read) ↔ cutter.Whole (cutter.pass state) read := by
  constructor
  · intro h front c back hread
    exact h (.literal value :: front) c back (by rw [hread, List.cons_append])
  · intro h front c back hread
    cases front with
    | nil => exact absurd (List.cons.inj hread).1 (by simp)
    | cons piece front =>
        obtain ⟨rfl, hrest⟩ := List.cons.inj hread
        exact h front c back hrest

/-- Pieces are whole if the first one is not a cut and the rest is whole. -/
theorem whole_char_cons :
    cutter.Whole state (.char c :: read) ↔
      cutter.cuts (cutter.step state c) c = false ∧ cutter.Whole (cutter.step state c) read := by
  constructor
  · intro h
    refine ⟨h [] c read rfl, fun front d back hread => ?_⟩
    exact h (.char c :: front) d back (by rw [hread, List.cons_append])
  · rintro ⟨hc, h⟩ front d back hread
    cases front with
    | nil =>
        cases (List.cons.inj hread).1
        exact hc
    | cons piece front =>
        obtain ⟨rfl, hrest⟩ := List.cons.inj hread
        exact h front d back hrest

/-- How whole pieces begin is whole. -/
theorem Whole.append_left (h : cutter.Whole state (front ++ back)) : cutter.Whole state front := by
  intro before c behind hfront
  exact h before c (behind ++ back) (by rw [hfront, List.append_assoc, List.cons_append])

/-- A literal behind whole pieces leaves them whole. -/
theorem Whole.append_literal (h : cutter.Whole state front) (value : Literal) :
    cutter.Whole state (front ++ [.literal value]) := by
  induction front generalizing state with
  | nil => exact whole_literal_cons.mpr whole_nil
  | cons piece front ih =>
      cases piece with
      | literal other => exact whole_literal_cons.mpr (ih (whole_literal_cons.mp h))
      | char d =>
          obtain ⟨hd, hrest⟩ := whole_char_cons.mp h
          exact whole_char_cons.mpr ⟨hd, ih hrest⟩

/-- Pieces are not cut at all, or there is a first cut. -/
theorem whole_or_cut (state : State) (read : List Piece) :
    cutter.Whole state read ∨ ∃ front c back, read = front ++ .char c :: back ∧
      cutter.Whole state front ∧ cutter.cutsBehind state front c = true := by
  induction read generalizing state with
  | nil => exact Or.inl whole_nil
  | cons piece read ih =>
      cases piece with
      | literal value =>
          rcases ih (cutter.pass state) with hwhole | ⟨front, c, back, rfl, hfront, hcut⟩
          · exact Or.inl (whole_literal_cons.mpr hwhole)
          · refine Or.inr ⟨.literal value :: front, c, back, rfl, ?_, hcut⟩
            exact whole_literal_cons.mpr hfront
      | char d =>
          cases hd : cutter.cuts (cutter.step state d) d with
          | true => exact Or.inr ⟨[], d, read, rfl, whole_nil, hd⟩
          | false =>
              rcases ih (cutter.step state d) with hwhole | ⟨front, c, back, rfl, hfront, hcut⟩
              · exact Or.inl (whole_char_cons.mpr ⟨hd, hwhole⟩)
              · refine Or.inr ⟨.char d :: front, c, back, rfl, ?_, hcut⟩
                exact whole_char_cons.mpr ⟨hd, hfront⟩

/-- Induction from cut to cut. -/
theorem induct (cutter : Cutter State) {motive : List Piece → Prop}
    (whole : ∀ read, cutter.Whole cutter.start read → motive read)
    (cut : ∀ front c back, cutter.Whole cutter.start front →
      cutter.cutsBehind cutter.start front c = true → motive back →
      motive (front ++ .char c :: back)) (read : List Piece) : motive read := by
  rcases cutter.whole_or_cut cutter.start read with hwhole | ⟨front, c, back, hread, hfront, hcut⟩
  · exact whole read hwhole
  · have hshorter : back.length < read.length := by
      rw [hread, List.length_append, List.length_cons]
      omega
    rw [hread]
    exact cut front c back hfront hcut (induct cutter whole cut back)
termination_by read.length

/-! ### Segments -/

/-- There is always a segment, if only an empty one. -/
theorem segments_ne_nil (state : State) (read : List Piece) : cutter.segments state read ≠ [] := by
  cases read with
  | nil => simp [segments]
  | cons piece rest =>
      cases piece with
      | literal value => exact attach_ne_nil _ _
      | char c =>
          rw [segments]
          split
          · simp
          · exact attach_ne_nil _ _

/-- Pieces without cuts stand at the front of the first segment. -/
theorem segments_append (h : cutter.Whole state front) (back : List Piece) :
    cutter.segments state (front ++ back) =
      attach (front.flatMap Piece.chars) (cutter.segments (cutter.run state front) back) := by
  induction front generalizing state with
  | nil => exact (attach_nil (segments_ne_nil _ _)).symm
  | cons piece front ih =>
      rw [List.flatMap_cons, attach_append, List.cons_append]
      cases piece with
      | literal value => rw [segments, ih (whole_literal_cons.mp h)]; rfl
      | char d =>
          obtain ⟨hd, hrest⟩ := whole_char_cons.mp h
          rw [segments, if_neg (by simp [hd]), ih hrest]
          rfl

/-- Whole pieces are one segment. -/
theorem segments_of_whole (h : cutter.Whole state read) :
    cutter.segments state read = [read.flatMap Piece.chars] := by
  have hall := segments_append h []
  rwa [List.append_nil, segments, attach, List.append_nil] at hall

/-- Cutters in states that are alike cut alike. -/
theorem segments_congr (h : cutter.Alike state other) (read : List Piece) :
    cutter.segments state read = cutter.segments other read := by
  induction read generalizing state other with
  | nil => rfl
  | cons piece read ih =>
      cases piece with
      | literal value =>
          have hrest : cutter.Alike (cutter.pass state) (cutter.pass other) :=
            fun front c => h (.literal value :: front) c
          rw [segments, segments, ih hrest]
      | char d =>
          have hrest : cutter.Alike (cutter.step state d) (cutter.step other d) :=
            fun front c => h (.char d :: front) c
          have hd : cutter.cuts (cutter.step state d) d = cutter.cuts (cutter.step other d) d :=
            h [] d
          rw [segments, segments, ih hrest, hd]

/-- The first cut ends the first segment, and all behind it is cut from the start. -/
theorem segments_of_cut (hrestarts : cutter.Restarts) (hfront : cutter.Whole state front)
    (hcut : cutter.cutsBehind state front c = true) (back : List Piece) :
    cutter.segments state (front ++ .char c :: back) =
      front.flatMap Piece.chars :: cutter.segments cutter.start back := by
  have hback := segments_congr (hrestarts (cutter.run state front) c hcut) back
  have hchar : cutter.cuts (cutter.step (cutter.run state front) c) c = true := hcut
  rw [segments_append hfront, segments, if_pos hchar, hback, attach, List.append_nil]

/-- Whole pieces are cut nowhere. -/
theorem not_cutsAt_of_whole (h : cutter.Whole cutter.start read) (place : Nat) :
    ¬cutter.CutsAt read place := by
  rintro ⟨front, c, back, hread, -, hcut⟩
  exact absurd (hcut.symm.trans (h front c back hread)) (by simp)

/-- Behind the first cut the cuts are those of what stands there. -/
theorem cutsAt_append (hrestarts : cutter.Restarts) (hfront : cutter.Whole cutter.start front)
    (hcut : cutter.cutsBehind cutter.start front c = true) {place : Nat} :
    cutter.CutsAt (front ++ .char c :: back) place ↔
      place = (front.flatMap Piece.chars).length ∨
        ∃ later, cutter.CutsAt back later ∧
          later + ((front.flatMap Piece.chars).length + 1) = place := by
  have hlater : ∀ middle d, cutter.cutsBehind cutter.start (front ++ .char c :: middle) d =
      cutter.cutsBehind cutter.start middle d := by
    intro middle d
    rw [cutsBehind_append]
    exact hrestarts (cutter.run cutter.start front) c hcut middle d
  have hlength : ∀ middle : List Piece,
      ((front ++ .char c :: middle).flatMap Piece.chars).length =
        (middle.flatMap Piece.chars).length + ((front.flatMap Piece.chars).length + 1) := by
    intro middle
    rw [List.flatMap_append, List.flatMap_cons, List.length_append, List.length_append, Piece.chars,
      List.length_singleton]
    omega
  constructor
  · rintro ⟨before, d, behind, hread, rfl, hcuts⟩
    -- a cut before the first one is none, as the front is whole; a later one is one of the rest
    rcases List.append_eq_append_iff.mp hread with ⟨middle, rfl, hback⟩ | ⟨middle, rfl, hback⟩
    · cases middle with
      | nil => exact Or.inl (by rw [List.append_nil])
      | cons piece middle =>
          obtain ⟨rfl, rfl⟩ := List.cons.inj hback
          rw [hlater] at hcuts
          exact Or.inr ⟨_, ⟨middle, d, behind, rfl, rfl, hcuts⟩, (hlength middle).symm⟩
    · cases middle with
      | nil => exact Or.inl (by rw [List.append_nil])
      | cons piece middle =>
          obtain ⟨rfl, -⟩ := List.cons.inj hback
          exact absurd (hcuts.symm.trans (hfront before d middle rfl)) (by simp)
  · rintro (rfl | ⟨_, ⟨middle, d, behind, rfl, rfl, hcuts⟩, rfl⟩)
    · exact ⟨front, c, back, rfl, rfl, hcut⟩
    · refine ⟨front ++ .char c :: middle, d, behind, ?_, hlength middle, ?_⟩
      · rw [List.append_assoc, List.cons_append]
      · rw [hlater, hcuts]

/-- The segments and the characters between them are the text, and it is cut wherever the cutter
cuts. -/
theorem exists_cutting (hrestarts : cutter.Restarts) (read : List Piece) :
    ∃ cutting : Cutting, cutting.text = read.flatMap Piece.chars ∧
      cutting.segments = cutter.segments cutter.start read ∧
      (∀ place, place ∈ cutting.places ↔ cutter.CutsAt read place) ∧
      ∀ cut ∈ cutting.rest, ∃ state, cutter.cuts state cut.1 = true := by
  induction read using cutter.induct with
  | whole read hwhole =>
      refine ⟨⟨read.flatMap Piece.chars, []⟩, ?_, (segments_of_whole hwhole).symm, ?_, ?_⟩
      · exact List.append_nil _
      · exact fun place => ⟨fun hmem => absurd hmem List.not_mem_nil,
          fun hcuts => absurd hcuts (not_cutsAt_of_whole hwhole place)⟩
      · exact List.forall_mem_nil _
  | cut front c back hfront hcut ih =>
      obtain ⟨cutting, htext, hsegments, hplaces, hcuts⟩ := ih
      refine ⟨.behind (front.flatMap Piece.chars) c cutting, ?_, ?_, fun place => ?_, ?_⟩
      · rw [Cutting.text_behind, htext, List.flatMap_append, List.flatMap_cons]
        rfl
      · rw [Cutting.segments_behind, hsegments, segments_of_cut hrestarts hfront hcut]
      · rw [Cutting.mem_places_behind, cutsAt_append hrestarts hfront hcut]
        simp only [hplaces]
      · exact List.forall_mem_cons.mpr ⟨⟨_, hcut⟩, hcuts⟩

/-- No segment is cut again. -/
theorem whole_of_mem_segments (hrestarts : cutter.Restarts) {marked : Bool}
    (hread : IsRead marked read) :
    ∀ segment ∈ cutter.segments cutter.start read,
      cutter.Whole cutter.start (pieces marked segment) := by
  induction read using cutter.induct with
  | whole read hwhole =>
      intro segment hsegment
      rw [segments_of_whole hwhole] at hsegment
      rw [List.mem_singleton.mp hsegment, hread]
      exact hwhole
  | cut front c back hfront hcut ih =>
      intro segment hsegment
      rw [segments_of_cut hrestarts hfront hcut] at hsegment
      rcases List.mem_cons.mp hsegment with rfl | hlater
      · rw [hread.append_left]
        exact hfront
      · exact ih (isRead_char_cons.mp hread.append_right).2 segment hlater

/-- A text that is not cut is not cut either if it is shorter. -/
theorem Whole.of_longer {text rest : Text}
    (h : cutter.Whole state (pieces false (text ++ rest))) :
    cutter.Whole state (pieces false text) := by
  obtain ⟨read, ⟨others, hothers⟩, hfront⟩ := frontOf_pieces text rest
  rw [← hothers] at h
  rcases hfront with hfront | ⟨value, hfront⟩
  · rw [hfront]
    exact h.append_left
  · rw [hfront]
    exact h.append_left.append_literal value

end Cutter

end ClassDiagram
