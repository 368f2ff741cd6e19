import ClassDiagram.Proofs.Reading.CSharpHead
import ClassDiagram.Proofs.Reading.HiddenBlocks
import ClassDiagram.Proofs.Reading.Owner
import ClassDiagram.Proofs.Rendered.CSharpBody

/-!
# The pass over the lines

The members of a C# body are told by its statements, and once more by its lines, which are cut at
other places. A line that holds one whole statement tells nothing new. A line that holds a part of
one may: the last parameters of a method look like a field.

* `Settled`: the texts behind which a new statement begins (`statementSegments_settled`).
* `StandsAlone`: a line with a statement of its own (`StandsAlone.toldKeys_subset`).
* `readMembers_lines`: what it takes that the lines add no member.
-/

namespace ClassDiagram

namespace CSharp

open Text

/-! ## Statements on lines -/

section Segments

variable {depth : Nat} {text first last only : Text} {others parts : List Text}

theorem exists_of_attach {c : Char} {segments : List Text} (hne : segments ≠ [])
    (h : attach [c] segments = first :: others) :
    ∃ rest, segments = rest :: others ∧ first = c :: rest := by
  cases segments with
  | nil => exact absurd rfl hne
  | cons rest others' =>
      cases h
      exact ⟨rest, rfl, rfl⟩

/-- A single segment is the whole text. -/
theorem statementSegments_single (h : statementSegments depth text = [only]) : text = only := by
  fun_induction statementSegments depth text generalizing only with
  | case1 => exact (List.cons.inj h).1
  | case2 _ _ ih | case4 _ _ _ _ ih | case6 _ _ _ _ _ _ ih =>
      obtain ⟨rest, hrest, rfl⟩ := exists_of_attach (statementSegments_ne_nil _ _) h
      rw [ih hrest]
  | case3 | case5 => exact absurd (List.cons.inj h).2 (statementSegments_ne_nil _ _)

/-- The first of several segments ends before a semicolon or in a brace. -/
theorem statementSegments_first {second : Text}
    (h : statementSegments depth text = first :: second :: others) :
    ∃ rest, statementSegments 0 rest = second :: others ∧
      (text = first ++ ';' :: rest ∨ text = first ++ rest ∧ first.getLast? = some '\x7d') := by
  fun_induction statementSegments depth text generalizing first with
  | case1 => cases h
  | case2 _ _ ih | case4 _ _ _ _ ih | case6 _ _ _ _ _ _ ih =>
      obtain ⟨front, hfront, rfl⟩ := exists_of_attach (statementSegments_ne_nil _ _) h
      obtain ⟨rest, hrest, htext⟩ := ih hfront
      refine ⟨rest, hrest, htext.imp (congrArg _) fun hclosed => ⟨congrArg _ hclosed.1, ?_⟩⟩
      have hne : front ≠ [] := by
        rintro rfl
        cases hclosed.2
      rw [List.getLast?_cons_of_ne_nil hne, hclosed.2]
  | case3 _ rest =>
      obtain ⟨rfl, hrest⟩ := List.cons.inj h
      exact ⟨rest, hrest, Or.inr ⟨rfl, rfl⟩⟩
  | case5 _ c rest _ _ hend =>
      obtain ⟨rfl, hrest⟩ := List.cons.inj h
      obtain ⟨rfl, -⟩ := hend
      exact ⟨rest, hrest, Or.inl rfl⟩

/-- A character before several segments goes to the first of them. -/
theorem attach_of_several {c : Char} {inner longer behind : List Text} (hne : inner ≠ [])
    (h : attach [c] inner = parts ++ [last]) (hparts : parts ≠ [])
    (hlonger : ∀ {fewer : List Text}, inner = fewer ++ [last] → fewer ≠ [] →
      longer = fewer ++ behind) : attach [c] longer = parts ++ behind := by
  obtain ⟨first, others, rfl⟩ := List.exists_cons_of_ne_nil hparts
  obtain ⟨front, hfront, rfl⟩ := exists_of_attach hne h
  have hbehind : longer = (front :: others) ++ behind := hlonger hfront (List.cons_ne_nil _ _)
  rw [hbehind]
  rfl

/-- Behind segments the last of which is blank, the next statement begins at depth zero. -/
theorem statementSegments_settled (h : statementSegments depth text = parts ++ [last])
    (hlast : ∀ c ∈ last, isBlank c = true) (hdepth : depth = 0 ∨ parts ≠ []) (rest : Text) :
    statementSegments depth (text ++ rest) = parts ++ attach last (statementSegments 0 rest) := by
  -- a block that is open at some depth is closed later, as a blank segment holds no brace
  fun_induction statementSegments depth text generalizing parts last with
  | case1 depth =>
      cases parts with
      | nil =>
          obtain rfl : depth = 0 := hdepth.resolve_right fun hne => hne rfl
          cases h
          exact (attach_nil (statementSegments_ne_nil _ _)).symm
      | cons first others => exact absurd (List.cons.inj h).2 (by simp)
  | case2 depth tail ih =>
      have hparts : parts ≠ [] := by
        rintro rfl
        obtain ⟨front, -, rfl⟩ := exists_of_attach (statementSegments_ne_nil _ _) h
        exact absurd (hlast _ List.mem_cons_self) (by decide)
      rw [List.cons_append, statementSegments, if_pos rfl]
      exact attach_of_several (statementSegments_ne_nil _ _) h hparts fun hinner hfewer =>
        ih hinner hlast (Or.inr hfewer)
  | case3 depth tail hle hbrace ih =>
      cases parts with
      | nil => exact absurd (List.cons.inj h).2 (statementSegments_ne_nil _ _)
      | cons first others =>
          obtain ⟨rfl, hothers⟩ := List.cons.inj h
          rw [List.cons_append, statementSegments, if_neg hbrace, if_pos rfl, if_pos hle,
            ih hothers hlast (Or.inl rfl)]
          rfl
  | case4 depth tail hle hbrace ih =>
      have hparts : parts ≠ [] := hdepth.resolve_left fun hzero => hle (by omega)
      rw [List.cons_append, statementSegments, if_neg hbrace, if_pos rfl, if_neg hle]
      exact attach_of_several (statementSegments_ne_nil _ _) h hparts fun hinner hfewer =>
        ih hinner hlast (Or.inr hfewer)
  | case5 depth c tail hopen hclose hend ih =>
      cases parts with
      | nil => exact absurd (List.cons.inj h).2 (statementSegments_ne_nil _ _)
      | cons first others =>
          obtain ⟨rfl, hothers⟩ := List.cons.inj h
          rw [List.cons_append, statementSegments, if_neg hopen, if_neg hclose, if_pos hend,
            ih hothers hlast (Or.inl rfl)]
          rfl
  | case6 depth c tail hopen hclose hend ih =>
      rw [List.cons_append, statementSegments, if_neg hopen, if_neg hclose, if_neg hend]
      by_cases hparts : parts = []
      · subst hparts
        obtain ⟨front, hfront, rfl⟩ := exists_of_attach (statementSegments_ne_nil _ _) h
        have hzero : depth = 0 := hdepth.resolve_right fun hne => hne rfl
        have hfewer : statementSegments depth tail = [] ++ [front] := hfront
        rw [ih hfewer (fun d hd => hlast d (List.mem_cons_of_mem _ hd)) (Or.inl hzero),
          List.nil_append, List.nil_append, ← attach_append]
        rfl
      · exact attach_of_several (statementSegments_ne_nil _ _) h hparts fun hinner hfewer =>
          ih hinner hlast (Or.inr hfewer)

end Segments

/-- Whether no statement is open at the end of a text. -/
def Settled (text : Text) : Prop :=
  ((statementSegments 0 text).getLast?.all fun last => last.strip.isEmpty) = true

instance : DecidablePred Settled := fun _ => inferInstanceAs (Decidable (_ = true))

theorem Settled.statementSegments_eq {text : Text} (h : Settled text) :
    ∃ last, (∀ c ∈ last, isBlank c = true) ∧
      statementSegments 0 text = statements text ++ [last] := by
  obtain ⟨init, last, hsegments⟩ : ∃ init last, statementSegments 0 text = init ++ [last] :=
    ⟨_, _, (List.dropLast_append_getLast (statementSegments_ne_nil 0 text)).symm⟩
  have hstatements : statements text = init := by
    rw [statements]
    exact (if_pos h).trans (by rw [hsegments, List.dropLast_concat])
  rw [Settled, hsegments, List.getLast?_concat, Option.all_some, List.isEmpty_iff] at h
  exact ⟨last, blank_of_strip_eq_nil h, by rw [hstatements, hsegments]⟩

/-- Whether a line of a text holds one whole statement: none is open where it begins, and none where
it ends. A block on it opens plainly. -/
structure StandsAlone (visible line : Text) : Prop where
  begins : ∃ before after, visible = before ++ (line ++ after) ∧ Settled before
  ends : Settled line
  single : ∃ statement, statements line = [statement] ∧
    ('\x7b' ∈ statement → OpensPlainly statement)

theorem mem_statements {visible statement : Text}
    (h : statement ∈ (statementSegments 0 visible).dropLast) : statement ∈ statements visible := by
  unfold statements
  dsimp only
  split
  · exact h
  · exact List.dropLast_subset _ h

/-- The statement on a line that stands alone is one of the whole text. -/
theorem StandsAlone.exists_statement {visible line : Text} (h : StandsAlone visible line) :
    ∃ statement ∈ statements visible, ∃ own, statements line = [own] ∧
      strip statement = strip own ∧ ('\x7b' ∈ own → OpensPlainly own) := by
  obtain ⟨⟨before, after, rfl, hbefore⟩, hends, own, hown, hopens⟩ := h
  obtain ⟨lead, hlead, hfront⟩ := hbefore.statementSegments_eq
  obtain ⟨trail, htrail, hline⟩ := hends.statementSegments_eq
  refine ⟨lead ++ own, mem_statements ?_, own, hown, ?_, hopens⟩
  · rw [statementSegments_settled hfront hlead (Or.inl rfl),
      statementSegments_settled hline htrail (Or.inl rfl), hown, List.singleton_append, attach,
      List.dropLast_append_of_ne_nil (List.cons_ne_nil _ _),
      List.dropLast_cons_of_ne_nil (attach_ne_nil _ _)]
    exact List.mem_append_right _ List.mem_cons_self
  · exact strip_blanks_append hlead own

/-- A line that holds one whole statement and no other tells nothing that the statement does not
tell. -/
theorem lineFacts_of_single {owner : String} {line own : Text} (hends : Settled line)
    (hown : statements line = [own]) (hopens : '\x7b' ∈ own → OpensPlainly own)
    (htold : toldKeys owner (statementFacts owner own) ≠ []) :
    lineFacts owner line = [] ∨ lineFacts owner line = statementFacts owner own := by
  have hfilled : dropAttributes own ≠ [] := by
    intro hnil
    have hcore : dropModifiers (collapse []) = [] := by decide +kernel
    have hpassed : isPassedOver [] = true := rfl
    refine htold ?_
    unfold statementFacts
    simp only [hnil, hcore, hpassed]
    rfl
  obtain ⟨trail, htrail, hline⟩ := hends.statementSegments_eq
  rw [hown] at hline
  obtain ⟨rest, hrest, htext⟩ := statementSegments_first hline
  obtain rfl : rest = trail := statementSegments_single hrest
  have hkept := fun hmem => hopens (dropAttributes_subset own hmem)
  rcases htext with rfl | ⟨rfl, hclosed⟩
  -- up to a semicolon
  · have hnone : ∀ c ∈ ([] : Text), isBlank c = true := fun _ hc => absurd hc List.not_mem_nil
    obtain ⟨gap, hgap, hdropped⟩ := dropAttributes_append hnone hfilled
    have hstrip : strip (own ++ ';' :: rest) = strip (own ++ ([] ++ [';'])) := by
      rw [List.append_cons]
      exact strip_append_blanks htrail _
    exact lineFacts_of_statement ((dropAttributes_congr hstrip).trans hdropped)
      (Or.inl ⟨gap, hgap, rfl⟩) hkept htold
  -- up to the end of a block
  · have hdropped : dropAttributes (own ++ rest) = dropAttributes own ++ [] := by
      rw [List.append_nil]
      exact dropAttributes_congr (strip_append_blanks htrail own)
    exact lineFacts_of_statement hdropped
      (Or.inr ⟨rfl, getLast?_dropAttributes (by decide) hclosed hfilled⟩) hkept htold

/-- A line that stands alone tells no member that no statement tells. -/
theorem StandsAlone.toldKeys_subset {owner : String} {visible line : Text}
    (h : StandsAlone visible line)
    (htold : ∀ statement ∈ statements visible,
      toldKeys owner (statementFacts owner statement) ≠ []) :
    toldKeys owner (lineFacts owner line) ⊆
      toldKeys owner ((statements visible).flatMap (statementFacts owner)) := by
  obtain ⟨statement, hmem, own, hown, hstrip, hopens⟩ := h.exists_statement
  have hsame : statementFacts owner statement = statementFacts owner own :=
    statementFacts_congr (dropAttributes_congr hstrip)
  have hkeys := htold statement hmem
  rw [hsame] at hkeys
  rcases lineFacts_of_single h.ends hown hopens hkeys with hnone | hfacts
  · rw [hnone]
    exact List.nil_subset _
  · rw [hfacts, ← hsame, toldKeys_flatMap]
    exact fun key hkey => List.mem_flatMap.mpr ⟨statement, hmem, hkey⟩

/-! ## The two passes -/

/-- The model after the statements of a body have been told of an entity, and its lines not yet. -/
def readStatements (owner : String) (body : Text) (model : Model) : Model :=
  model.tell .cSharp ((statements (hideBlocks body)).flatMap (statementFacts owner))

/-- Where every statement of a body tells a member, the pass over the lines adds no field and no
method exactly if no line tells a new member but those that hold one whole statement each. -/
theorem readMembers_lines {owner : String} {model : Model} {entity : Entity}
    (hfind : model.find? owner = some entity) {body : Text}
    (htold : ∀ statement ∈ statements (hideBlocks body),
      toldKeys owner (statementFacts owner statement) ≠ []) :
    ∃ stated lined : Entity, (readStatements owner body model).find? owner = some stated ∧
      (readMembers owner body model).find? owner = some lined ∧
      ((lined.fields = stated.fields ∧ lined.methods = stated.methods) ↔
        ∀ line ∈ (hideBlocks body).lines, ¬StandsAlone (hideBlocks body) line →
          ∀ key ∈ toldKeys owner (lineFacts owner line), key ∈ stated.memberKeys) := by
  have habout := allAbout_memberFacts owner body
  obtain ⟨hstatements, -⟩ := allAbout_append.mp habout
  refine ⟨_, _, Model.find?_applyAll_about hfind hstatements .cSharp,
    Model.find?_applyAll_about hfind habout .cSharp, ?_⟩
  rw [memberFacts, List.filterMap_append, Entity.gainAll_append, Entity.members_gainAll_eq_iff,
    ← toldKeys_eq, toldKeys_flatMap]
  constructor
  · intro hknown line hline _ key hkey
    exact hknown key (List.mem_flatMap.mpr ⟨line, hline, hkey⟩)
  · intro hknown key hkey
    obtain ⟨line, hline, hkey⟩ := List.mem_flatMap.mp hkey
    by_cases halone : StandsAlone (hideBlocks body) line
    · have htwice := halone.toldKeys_subset htold hkey
      rw [toldKeys_eq] at htwice
      exact Entity.mem_memberKeys_gainAll.mpr (Or.inr htwice)
    · exact hknown line hline halone key hkey

/-- A property. -/
def cabinProperty : Text := " int Beds \x7b get; \x7d".toList

/-- A field, and a method over two lines. -/
def cabinRest : Text := "\n [Old] int Beam ;\n void Moor(int far,\n int near) \x7b \x7d".toList

/-- The body that they make. -/
def cabinBody : Text := ['\n'] ++ (cabinProperty ++ cabinRest)

/-- A model that has an entity without members. -/
def cabinIn : Model := Model.empty.declare "Cabin" .cls

/-- The property stands alone, and the method is broken over lines that tell nothing. -/
theorem readMembers_lines_cabin :
    (∀ statement ∈ statements (hideBlocks cabinBody),
        toldKeys "Cabin" (statementFacts "Cabin" statement) ≠ []) ∧
      StandsAlone (hideBlocks cabinBody) cabinProperty ∧
      ∃ stated lined : Entity,
        (readStatements "Cabin" cabinBody cabinIn).find? "Cabin" = some stated ∧
        (readMembers "Cabin" cabinBody cabinIn).find? "Cabin" = some lined ∧
        lined.fields = stated.fields ∧ lined.methods = stated.methods := by
  have hvisible : hideBlocks cabinBody = cabinBody := by decide +kernel
  have htold : ∀ statement ∈ statements (hideBlocks cabinBody),
      toldKeys "Cabin" (statementFacts "Cabin" statement) ≠ [] := by
    rw [hvisible]
    decide +kernel
  have halone : StandsAlone (hideBlocks cabinBody) cabinProperty :=
    { begins := ⟨['\n'], cabinRest, hvisible, by decide +kernel⟩
      ends := by decide +kernel
      single := ⟨cabinProperty, by decide +kernel, fun _ => by decide +kernel⟩ }
  have hfind : cabinIn.find? "Cabin" = some { name := "Cabin", kind := .cls } := by decide +kernel
  obtain ⟨stated, lined, hstated, hlined, hiff⟩ := readMembers_lines hfind htold
  have hkeys : (readStatements "Cabin" cabinBody cabinIn).memberKeys "Cabin" =
      stated.memberKeys := by
    rw [Model.memberKeys, hstated]
    rfl
  have hknown : ∀ line ∈ (hideBlocks cabinBody).lines,
      ∀ key ∈ toldKeys "Cabin" (lineFacts "Cabin" line),
        key ∈ (readStatements "Cabin" cabinBody cabinIn).memberKeys "Cabin" := by
    rw [readStatements, hvisible]
    decide +kernel
  rw [hkeys] at hknown
  exact ⟨htold, halone, stated, lined, hstated, hlined,
    hiff.mpr fun line hline _ => hknown line hline⟩

/-- A method whose last parameter stands on a line of its own, with a value. -/
def boothBody : Text := " void Rent(int days,\n int price = 3);".toList

/-- A model that has an interface without members. -/
def boothIn : Model := Model.empty.declare "Booth" .interface

/-- The only statement tells a method, and yet the second of its lines tells a field. -/
theorem booth_parameter_added :
    (∀ statement ∈ statements (hideBlocks boothBody),
        toldKeys "Booth" (statementFacts "Booth" statement) ≠ []) ∧
      ((readStatements "Booth" boothBody boothIn).find? "Booth").map Entity.fields = some [] ∧
      ((readMembers "Booth" boothBody boothIn).find? "Booth").map Entity.fields =
        some [⟨"price", "int"⟩] := by
  have hvisible : hideBlocks boothBody = boothBody := by decide +kernel
  rw [readStatements, readMembers, memberFacts, hvisible]
  decide +kernel

end CSharp

end ClassDiagram
