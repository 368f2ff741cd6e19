import ClassDiagram.Proofs.Model.Run
import ClassDiagram.Proofs.Rendered.TypeScriptMember
import ClassDiagram.Proofs.Scan.Indented

/-!
# Written classes of TypeScript

A whole class as it is written: keyword, name, what it extends and implements, and one member in a
line. Reading it gives back the class that was written.

* `memberFacts_body`: a written body tells exactly its members.
* `headerFacts_header`: a written header tells exactly base and interfaces.
* `ofContributions_typescript_class`: the model is the one class, with its members and relations.
-/

namespace ClassDiagram

namespace TypeScript

open Text

/-- The line of a member: a field ends in a semicolon, a method in its empty body. -/
def Member.line (member : Member) : Text :=
  member.text ++ match member with
    | .field _ _ => [';']
    | .method _ _ _ => []

/-- A class: its name, what it extends and implements, and its members. -/
structure ClassTerm where
  name : Ident reservedWords
  base : Option (Dotted reservedWords)
  interfaces : List (Dotted reservedWords)
  members : List Member

namespace ClassTerm

variable (cls : ClassTerm)

/-- The word that announces a class, and a space. -/
def keyword : Text := "class ".toList

/-- The word before a base, and a space. -/
def baseWord : Text := "extends ".toList

/-- The word before interfaces. -/
def interfaceWord : Text := "implements".toList

/-- What a class says of its base. -/
def basePart : Text :=
  match cls.base with
  | none => []
  | some base => baseWord ++ (base.text ++ [' '])

/-- Names in a row. -/
def nameList (names : List (Dotted reservedWords)) : Text := join [',', ' '] (names.map Dotted.text)

/-- What a class says of its interfaces. -/
def interfacePart : Text :=
  match cls.interfaces with
  | [] => []
  | first :: others => interfaceWord ++ ' ' :: (nameList (first :: others) ++ [' '])

/-- What stands between the name of a class and the brace that opens its body. -/
def header : Text := ' ' :: (cls.basePart ++ cls.interfacePart)

/-- The lines between the braces of a class. -/
def body (indent : Nat) : Text := indented indent (cls.members.map Member.line)

/-- A class as it is written, its members indented by some spaces. -/
def text (indent : Nat) : Text :=
  keyword ++ (cls.name.chars ++ (cls.header ++ '\x7b' :: (cls.body indent ++ ['\x7d'])))

/-- The names of the bases, without their qualifiers. -/
def baseNames : List String := cls.base.toList.map fun base => base.last.name

/-- The names of the interfaces, without their qualifiers. -/
def interfaceNames : List String := cls.interfaces.map fun interface => interface.last.name

/-- The entity that a class is. -/
def entity : Entity :=
  .ofClass cls.name.name cls.baseNames cls.interfaceNames (cls.members.map Member.toClassMember)

/-- What makes a class well-formed: it is not related to itself, and its members are told apart. -/
structure WellFormed : Prop where
  related_other : ∀ other ∈ cls.baseNames ++ cls.interfaceNames, other ≠ cls.name.name
  fields_distinct : (cls.entity.fields.map Field.name).Nodup
  methods_distinct : (cls.entity.methods.map Method.signature).Nodup

/-- All features of a class, in the order in which they are met. -/
def features : List Feature :=
  Entity.classFeatures cls.baseNames cls.interfaceNames (cls.members.map Member.toClassMember)

end ClassTerm

/-! ## Lines -/

section Lines

variable (member : Member)

/-- The signs of a line. -/
def lineSigns : List Char := '\x7b' :: '\x7d' :: ';' :: TypeTerm.typeSigns

/-- A parameter list is spelled with the signs of types. -/
theorem spelled_paramList (params : List (Ident reservedWords × TypeTerm)) :
    Spelled isIdentChar TypeTerm.typeSigns (paramList params) :=
  .join (.of_all (by decide)) (List.forall_mem_map.mpr fun param _ =>
    TypeTerm.spelled_annotated param.1 param.2.spelled)

/-- A member is spelled with the signs of types and braces. -/
theorem spelled_member :
    Spelled isIdentChar ('\x7b' :: '\x7d' :: TypeTerm.typeSigns) member.text := by
  have hsub : TypeTerm.typeSigns ⊆ '\x7b' :: '\x7d' :: TypeTerm.typeSigns := by decide
  cases member with
  | field name type => exact (TypeTerm.spelled_annotated name type.spelled).mono hsub
  | method name params result =>
      have hparams := (spelled_paramList params).mono hsub
      have hresult := result.spelled.mono hsub
      exact name.spelled.append (.cons (by decide) (hparams.append (.cons (by decide)
        (.cons (by decide) (.cons (by decide) (hresult.append (.of_all (by decide))))))))

/-- A member's line is spelled with few signs. -/
theorem spelled_line : Spelled isIdentChar lineSigns member.line := by
  refine ((spelled_member member).mono (by decide)).append ?_
  cases member with
  | field name type => exact .cons (by decide) .nil
  | method name params result => exact .nil

/-- A member closes every bracket that it opens. -/
theorem balanced_member : Balanced .all (fun _ => True) member.text := by
  cases member with
  | field name type => exact (balanced_annotated name type).inside
  | method name params result =>
      have hspace : Balanced .all (fun _ => True) [' '] := .of_ordinary (forall_chars (by decide))
      have hblock : Balanced .all (fun _ => True) [' ', '\x7b', ' ', '\x7d'] :=
        hspace.append (.grouped rfl (by decide) trivial trivial hspace)
      exact (name.balanced fun _ _ => trivial).append
        (.group rfl (by decide) trivial trivial (balanced_paramList params)
          (.char (by decide) trivial (.char (by decide) trivial
            (result.balanced.inside.append hblock))))

/-- A member's line closes every bracket that it opens. -/
theorem balanced_line : Balanced .all (fun _ => True) member.line := by
  have hend : Balanced .all (fun _ => True) [';'] := .of_ordinary (forall_chars (by decide))
  cases member with
  | field name type => exact (balanced_member _).append hend
  | method name params result => exact (balanced_member _).append .nil

/-- A line holds no word that announces a declaration. -/
theorem avoids_line : Avoids reservedWords member.line := by
  have hempty : "" ∉ reservedWords := by decide
  cases member with
  | field name type => exact (avoids_annotated name type).append_cons (by decide) (.nil hempty)
  | method name params result =>
      have hparams : Avoids reservedWords (paramList params) := by
        refine Avoids.join hempty (forall_chars (by decide)) ?_
        intro item hitem
        obtain ⟨param, _, rfl⟩ := List.mem_map.mp hitem
        exact avoids_annotated param.1 param.2
      have hblock : Avoids reservedWords (['\x7b', ' ', '\x7d'] ++ []) :=
        (Avoids.nil hempty).append_others hempty (forall_chars (by decide))
      have hresult : Avoids reservedWords
          (':' :: ' ' :: (result.text ++ [' ', '\x7b', ' ', '\x7d'])) :=
        ((result.avoids.append_cons (by decide) hblock).cons (by decide) hempty).cons (by decide)
          hempty
      have hall := name.avoids.append_cons (show isWordChar '(' = false by decide)
        (hparams.append_cons (show isWordChar ')' = false by decide) hresult)
      rwa [Member.line, List.append_nil]

end Lines

/-! ## The body -/

section Body

/-- A line without its margin and its semicolon is the one unit it holds. -/
theorem splitTop_line (indent : Nat) (member : Member) :
    splitTop (List.replicate indent ' ' ++ member.line) (· == ';') false = [member.text] := by
  have hbalanced : Balanced .all (fun _ => True) (List.replicate indent ' ' ++ member.text) := by
    refine Balanced.append (.of_ordinary fun c hc => ?_) (balanced_member member)
    rw [List.eq_of_mem_replicate hc]
    exact ⟨by decide, trivial⟩
  have hnone : ∀ c ∈ List.replicate indent ' ' ++ member.text, (c == ';') = false := by
    intro c hc
    refine beq_eq_false_iff_ne.mpr ?_
    rintro rfl
    rcases List.mem_append.mp hc with hc | hc
    · exact absurd (List.eq_of_mem_replicate hc) (by decide)
    · exact (spelled_member member).not_mem (by decide) (by decide) hc
  have hfront : ∀ rest, topSegments (· == ';') ⟨true, false⟩ 0 false
      (pieces false ((List.replicate indent ' ' ++ member.text) ++ rest)) =
      attach (List.replicate indent ' ' ++ member.text)
        (topSegments (· == ';') ⟨true, false⟩ 0 false (pieces false rest)) :=
    topSegments_balanced_of_none hbalanced hnone
  have hstrip : strip (List.replicate indent ' ' ++ member.text) = member.text :=
    (tidy_member member).strip_behind (isMargin_spaces indent).blank
  have hkept : member.text.isEmpty = false := by simpa using (tidy_member member).ne_nil
  unfold splitTop Member.line
  rw [← List.append_assoc, hfront]
  cases member with
  | field name type =>
      -- nothing but the end of the line follows the semicolon
      have hend : topSegments (· == ';') ⟨true, false⟩ 0 false (pieces false [';']) = [[], []] := by
        decide +kernel
      show (((attach _ (topSegments (· == ';') ⟨true, false⟩ 0 false
        (pieces false [';']))).map strip).filter fun part => !part.isEmpty) = _
      rw [hend, attach, List.append_nil, List.map_cons, hstrip, List.filter_cons_of_pos
        (by rw [hkept]; rfl)]
      rfl
  | method name params result =>
      rw [pieces_nil, topSegments, attach, List.append_nil, List.map_cons, hstrip,
        List.filter_cons_of_pos (by rw [hkept]; rfl)]
      rfl

/-- The members of a body are found one by one, each as it was written. -/
theorem memberUnits_body (indent : Nat) (members : List Member) :
    memberUnits false (indented indent (members.map Member.line)) = members.map Member.text := by
  have hlines : ∀ line ∈ members.map Member.line,
      Balanced .all (fun _ => True) line ∧ '\n' ∉ line := by
    intro line hline
    obtain ⟨member, _, rfl⟩ := List.mem_map.mp hline
    exact ⟨balanced_line member, (spelled_line member).not_mem (by decide) (by decide)⟩
  have hempty : splitTop [] (· == ';') false = [] := by decide +kernel
  unfold memberUnits
  rw [units_indented trivial hlines, List.flatMap_cons, hempty, List.flatMap_nil, List.nil_append,
    List.flatMap_map, List.flatMap_map]
  simp only [splitTop_line, List.flatMap_cons, List.flatMap_nil, List.append_nil,
    Bool.false_eq_true, if_false]
  rw [List.map_eq_flatMap]

/-- A written body tells exactly its members. -/
theorem memberFacts_body (owner : String) (indent : Nat) (members : List Member) :
    memberFacts owner false (indented indent (members.map Member.line)) =
      ((members.map Member.toClassMember).flatMap ClassMember.features).map
        (Feature.toFact owner) := by
  rw [memberFacts, memberUnits_body, List.flatMap_map, List.flatMap_map, List.map_flatMap]
  exact List.flatMap_congr fun member _ => unitFacts_member owner member

end Body

/-! ## The header -/

section Names

/-- A list of names is tidy. -/
theorem tidy_nameList {names : List (Dotted reservedWords)} (hne : names ≠ []) :
    Tidy (ClassTerm.nameList names) := by
  refine Tidy.join (by decide) (by simpa using hne) ?_
  intro item hitem
  obtain ⟨name, _, rfl⟩ := List.mem_map.mp hitem
  exact name.tidy

/-- There is no reserved word in a list of names. -/
theorem avoids_nameList (names : List (Dotted reservedWords)) :
    Avoids reservedWords (ClassTerm.nameList names) := by
  refine Avoids.join (by decide) (forall_chars (by decide)) ?_
  intro item hitem
  obtain ⟨name, _, rfl⟩ := List.mem_map.mp hitem
  exact name.avoids

/-- Names in a row are cut apart. -/
theorem splitTop_nameList (names : List (Dotted reservedWords)) {lead : Text}
    (hlead : IsMargin lead) :
    splitTop (lead ++ ClassTerm.nameList names) = names.map Dotted.text := by
  have htop : ∀ d, TypeTerm.isTypeChar d = true → (d == ',') = false := fun d hd =>
    beq_eq_false_iff_ne.mpr (ne_of_class hd (by decide))
  refine splitTop_join (by decide) (by decide) (forall_chars (by decide)) htop ?_ ?_
  · intro item hitem
    obtain ⟨name, _, rfl⟩ := List.mem_map.mp hitem
    exact ⟨name.balanced fun _ => TypeTerm.isTypeChar_of_dotted, name.tidy⟩
  · intro c hc
    rcases hlead c hc with rfl | rfl <;> decide

end Names

section Header

variable (cls : ClassTerm) (owner : String)

/-- What a header says of the base, without blanks at its ends. -/
def writtenBase : Option (Dotted reservedWords) → Text
  | none => []
  | some base => ClassTerm.baseWord ++ base.text

/-- The base is what stands behind its keyword. -/
theorem splitTop_writtenBase (base : Option (Dotted reservedWords)) :
    splitTop (if ClassTerm.baseWord.isPrefixOf (writtenBase base) then
      (writtenBase base).drop ClassTerm.baseWord.length else []) =
      base.toList.map Dotted.text := by
  cases base with
  | none => decide +kernel
  | some base =>
      have hsplit : splitTop ([] ++ ClassTerm.nameList [base]) = [base].map Dotted.text :=
        splitTop_nameList [base] fun c hc => absurd hc List.not_mem_nil
      have hword : ClassTerm.baseWord.isPrefixOf (ClassTerm.baseWord ++ base.text) = true :=
        List.isPrefixOf_iff_prefix.mpr (List.prefix_append _ _)
      rw [writtenBase, if_pos hword, List.drop_left]
      simpa [ClassTerm.nameList, join] using hsplit

/-- An entry of a header. -/
theorem baseAndArguments_entry (other : Dotted reservedWords) :
    baseAndArguments (collapse (upTo '(' other.text)) = (other.last.chars, []) ∧
      baseAndArguments (collapse other.text) = (other.last.chars, []) := by
  have hcall : upTo '(' other.text = other.text :=
    upTo_of_not_mem (other.not_mem (by decide) (by decide))
  rw [hcall, other.tidy.collapse]
  exact ⟨other.baseAndArguments_text, other.baseAndArguments_text⟩

/-- A header, given where its interfaces start. -/
theorem headerFacts_of_place {header written : Text} (hwritten : collapse header = written)
    {place : Nat} (hplace : (wordPlace? "implements" written).getD written.length = place)
    {base : Option (Dotted reservedWords)} (hbase : strip (written.take place) = writtenBase base)
    {interfaces : List (Dotted reservedWords)}
    (hinterfaces : splitTop (written.drop (place + "implements".length)) =
      interfaces.map Dotted.text) :
    headerFacts owner header =
      ((base.toList.map fun other => other.last.name).map Feature.base ++
        (interfaces.map fun other => other.last.name).map Feature.interface).map
          (Feature.toFact owner) := by
  -- with or without the word, the two parts of the header are read in the same way
  have hentries : ∀ {bases behind : Text}, strip bases = writtenBase base →
      splitTop behind = interfaces.map Dotted.text →
      (splitTop (if "extends ".toList.isPrefixOf (strip bases) then
          (strip bases).drop "extends ".toList.length else [])).flatMap (fun entry =>
        .inherits owner (String.ofList (baseAndArguments (collapse (upTo '(' entry))).1) ::
          usesOf owner (baseAndArguments (collapse (upTo '(' entry))).2) ++
      (splitTop behind).flatMap (fun entry =>
        .realizes owner (String.ofList (baseAndArguments (collapse entry)).1) ::
          usesOf owner (baseAndArguments (collapse entry)).2) =
      ((base.toList.map fun other => other.last.name).map Feature.base ++
        (interfaces.map fun other => other.last.name).map Feature.interface).map
          (Feature.toFact owner) := by
    intro bases behind hbases hbehind
    rw [hbases, hbehind, show "extends ".toList = ClassTerm.baseWord from rfl,
      splitTop_writtenBase]
    simp only [List.flatMap_map, baseAndArguments_entry, usesOf, usesOf_nil, List.map_append,
      List.map_map]
    rw [← List.map_eq_flatMap, ← List.map_eq_flatMap]
    rfl
  unfold headerFacts
  cases hfound : wordPlace? "implements" written with
  | none =>
      rw [hfound, Option.getD_none] at hplace
      rw [← hplace, List.take_length] at hbase
      rw [← hplace, List.drop_eq_nil_of_le (Nat.le_add_right _ _)] at hinterfaces
      simp only [hwritten, hfound]
      exact hentries hbase hinterfaces
  | some found =>
      rw [hfound, Option.getD_some] at hplace
      subst hplace
      simp only [hwritten, hfound]
      exact hentries hbase hinterfaces

/-- The base and its keyword stand one space apart. -/
theorem tidy_writtenBase (base : Dotted reservedWords) : Tidy (writtenBase (some base)) := by
  have hall : Tidy ("extends".toList ++ ' ' :: base.text) :=
    .space (by decide) (forall_chars (by decide)) base.tidy
  exact hall

/-- Where a base is written, no interfaces begin. -/
theorem avoids_writtenBase (base : Dotted reservedWords) :
    Avoids ["implements"] (writtenBase (some base)) := by
  have hword : Avoids ["implements"] "extends".toList := by
    unfold Avoids
    decide
  have hall : Avoids ["implements"] ("extends".toList ++ ' ' :: base.text) :=
    hword.append_cons (by decide) (base.avoids.mono (by decide))
  exact hall

theorem basePart_eq_none (h : cls.base = none) : cls.basePart = [] := by
  rw [ClassTerm.basePart, h]

theorem basePart_eq_some {base : Dotted reservedWords} (h : cls.base = some base) :
    cls.basePart = writtenBase (some base) ++ [' '] := by
  rw [ClassTerm.basePart, h]
  exact (List.append_assoc _ _ _).symm

/-- The part for the base without the blanks around it. -/
theorem strip_basePart : strip cls.basePart = writtenBase cls.base := by
  cases hbase : cls.base with
  | none =>
      rw [basePart_eq_none cls hbase]
      rfl
  | some base =>
      rw [basePart_eq_some cls hbase]
      exact (tidy_writtenBase base).strip_before (forall_chars (by decide))

/-- The base stays tidy with something tidy behind it. -/
theorem tidy_basePart_append {text : Text} (h : Tidy text) : Tidy (cls.basePart ++ text) := by
  cases hbase : cls.base with
  | none =>
      rw [basePart_eq_none cls hbase]
      exact h
  | some base =>
      rw [basePart_eq_some cls hbase, List.append_assoc]
      exact (tidy_writtenBase base).spaced h

/-- The word before the interfaces is the first of its kind. -/
theorem wordPlace?_basePart_append (rest : Text) :
    wordPlace? "implements" (cls.basePart ++ (ClassTerm.interfaceWord ++ ' ' :: rest)) =
      some cls.basePart.length := by
  have hfront : wordPlace? "implements" (ClassTerm.interfaceWord ++ ' ' :: rest) = some 0 := rfl
  cases hbase : cls.base with
  | none =>
      rw [basePart_eq_none cls hbase]
      exact hfront
  | some base =>
      rw [basePart_eq_some cls hbase, List.append_assoc, List.length_append]
      have hskip : wordPlace? "implements" (writtenBase (some base) ++ ' ' ::
          (ClassTerm.interfaceWord ++ ' ' :: rest)) =
          (wordPlace? "implements" (ClassTerm.interfaceWord ++ ' ' :: rest)).map
            (· + ((writtenBase (some base)).length + 1)) :=
        wordPlaceFrom?_append (fun run hrun => by simpa using hrun)
          (avoids_writtenBase base).behind (by decide) _
      refine hskip.trans ?_
      rw [hfront, Option.map_some, Nat.zero_add]
      rfl

/-- The header tells of the base and of the interfaces, whichever of them are there. -/
theorem headerFacts_header :
    headerFacts owner cls.header =
      (cls.baseNames.map Feature.base ++ cls.interfaceNames.map Feature.interface).map
        (Feature.toFact owner) := by
  unfold ClassTerm.header ClassTerm.interfacePart ClassTerm.baseNames ClassTerm.interfaceNames
  cases hinterfaces : cls.interfaces with
  | nil =>
      have hcollapse : collapse (' ' :: (cls.basePart ++ [])) = writtenBase cls.base := by
        cases hbase : cls.base with
        | none =>
            rw [basePart_eq_none cls hbase]
            rfl
        | some base =>
            rw [basePart_eq_some cls hbase, List.append_nil]
            have hpadded : collapse ([' '] ++ (writtenBase (some base) ++ [' '])) =
                writtenBase (some base) :=
              (tidy_writtenBase base).collapse_padded (forall_chars (by decide))
                (forall_chars (by decide))
            exact hpadded
      -- without interfaces their keyword is not found, and all of the header is the base's
      have hnone : wordPlace? "implements" (writtenBase cls.base) = none := by
        cases cls.base with
        | none => rfl
        | some base => exact wordPlace?_eq_none (avoids_writtenBase base)
      refine headerFacts_of_place owner hcollapse (by rw [hnone, Option.getD_none]) ?_ ?_
      · rw [List.take_length]
        cases cls.base with
        | none => rfl
        | some base => exact (tidy_writtenBase base).strip
      · rw [List.drop_eq_nil_of_le (Nat.le_add_right _ _)]
        decide +kernel
  | cons first others =>
      have hlist : Tidy (ClassTerm.nameList (first :: others)) :=
        tidy_nameList (List.cons_ne_nil _ _)
      -- the interfaces' keyword parts the header, and the base stands before it
      have hwritten : Tidy
          (ClassTerm.interfaceWord ++ ' ' :: ClassTerm.nameList (first :: others)) :=
        .space (by decide) (forall_chars (by decide)) hlist
      have hcollapse : collapse ([' '] ++ ((cls.basePart ++
          (ClassTerm.interfaceWord ++ ' ' :: ClassTerm.nameList (first :: others))) ++ [' '])) =
          cls.basePart ++
            (ClassTerm.interfaceWord ++ ' ' :: ClassTerm.nameList (first :: others)) :=
        (tidy_basePart_append cls hwritten).collapse_padded (forall_chars (by decide))
          (forall_chars (by decide))
      rw [List.append_assoc, List.append_assoc, List.cons_append] at hcollapse
      refine headerFacts_of_place owner hcollapse
        (by rw [wordPlace?_basePart_append, Option.getD_some]) ?_ ?_
      · rw [List.take_left]
        exact strip_basePart cls
      · have hlength : "implements".length = ClassTerm.interfaceWord.length := rfl
        rw [← List.drop_drop, List.drop_left, hlength, List.drop_left]
        exact splitTop_nameList (first :: others) (isMargin_spaces 1)

end Header

/-! ## The text that is searched -/

section Chars

variable (cls : ClassTerm)

/-- A header is spelled with spaces, dots and commas. -/
theorem spelled_header : Spelled isIdentChar [' ', '.', ','] cls.header := by
  have hdotted : ∀ name : Dotted reservedWords, Spelled isIdentChar [' ', '.', ','] name.text :=
    fun name => name.spelled (by decide)
  refine .cons (by decide) (.append ?_ ?_)
  · unfold ClassTerm.basePart
    split
    · exact .nil
    · exact .append (.of_all (by decide)) ((hdotted _).append (.of_all (by decide)))
  · unfold ClassTerm.interfacePart
    split
    · exact .nil
    · exact .append (.of_all (by decide)) (.cons (by decide) (.append
        (.join (.of_all (by decide)) (List.forall_mem_map.mpr fun name _ => hdotted name))
        (.of_all (by decide))))

theorem spelled_body (indent : Nat) :
    Spelled isIdentChar ('\n' :: lineSigns) (cls.body indent) :=
  .indented (by decide) (by decide) (List.forall_mem_map.mpr fun member _ =>
    (spelled_line member).mono (List.subset_cons_self _ _))

theorem spelled_text (indent : Nat) :
    Spelled isIdentChar ('\n' :: lineSigns) (cls.text indent) :=
  .append (.of_all (by decide)) (cls.name.spelled.append
    (((spelled_header cls).mono (by decide)).append
      (.cons (by decide) ((spelled_body cls indent).append (.of_all (by decide))))))

/-- A written class has neither literals nor comments. -/
theorem content_text (indent : Nat) : content (cls.text indent) = cls.text indent := by
  have hplain : ∀ c ∈ cls.text indent, isPlain c = true :=
    (spelled_text cls indent).forall_mem (fun _ => isPlain_of_identChar) (forall_chars (by decide))
  rw [content, stripComments_of_plain hplain, mask_of_plain hplain]

end Chars

/-! ## Aliases -/

section Aliases

variable (cls : ClassTerm)

/-- Where no keyword stands, no header begins. -/
theorem keywordAndName?_eq_none {keywords : List String} {text : Text}
    (h : String.ofList (spanWord text).1 ∉ keywords) : keywordAndName? keywords text = none := by
  have hnone : keywords.contains (String.ofList (spanWord text).1) = false := by simpa using h
  unfold keywordAndName?
  simp only [hnone, Bool.false_eq_true, if_false]

/-- There is no alias in a header. -/
theorem avoids_header : Avoids ["type"] cls.header := by
  have hempty : "" ∉ ["type"] := by decide
  have hword : Avoids ["type"] "extends".toList ∧ Avoids ["type"] ClassTerm.interfaceWord := by
    unfold Avoids
    decide
  have hinterfaces : Avoids ["type"] cls.interfacePart := by
    unfold ClassTerm.interfacePart
    split
    · exact .nil hempty
    · exact hword.2.append_cons (by decide)
        (((avoids_nameList _).mono (by decide)).append_cons (by decide) (.nil hempty))
  unfold ClassTerm.header
  refine Avoids.cons (by decide) hempty ?_
  cases hbase : cls.base with
  | none =>
      rw [basePart_eq_none cls hbase]
      exact hinterfaces
  | some base =>
      have hwritten : Avoids ["type"] ("extends".toList ++ ' ' :: base.text) :=
        hword.1.append_cons (by decide) (base.avoids.mono (by decide))
      rw [basePart_eq_some cls hbase, List.append_assoc]
      exact hwritten.append_cons (by decide) hinterfaces

/-- There is no alias in a class. -/
theorem avoids_text (indent : Nat) : Avoids ["type"] (cls.text indent) := by
  have hempty : "" ∉ ["type"] := by decide
  have hkeyword : Avoids ["type"] "class".toList := by
    unfold Avoids
    decide
  have hbody : Avoids ["type"] (cls.body indent ++ ['\x7d']) := by
    refine Avoids.indented hempty ?_ ((Avoids.nil hempty).cons (by decide) hempty)
    intro line hline
    obtain ⟨member, _, rfl⟩ := List.mem_map.mp hline
    exact (avoids_line member).mono (by decide)
  have hbehind : Avoids ["type"] (cls.header ++ '\x7b' :: (cls.body indent ++ ['\x7d'])) :=
    (avoids_header cls).append_cons (by decide) hbody
  have hname : Avoids ["type"] (cls.name.chars ++ (cls.header ++
      '\x7b' :: (cls.body indent ++ ['\x7d']))) := by
    -- the header begins with the space that parts the name from the clauses
    have hrest : Avoids ["type"] ((cls.basePart ++ cls.interfacePart) ++
        '\x7b' :: (cls.body indent ++ ['\x7d'])) := by
      rw [ClassTerm.header, List.cons_append, ← List.nil_append (' ' :: _)] at hbehind
      exact ((Avoids.append_cons_iff (by decide)).mp hbehind).2
    exact (cls.name.avoids.mono (by decide)).append_cons (by decide) hrest
  exact hkeyword.append_cons (c := ' ') (by decide) hname

/-- No alias is found in a class. -/
theorem all_aliasRule_text (indent : Nat) : aliasRule.all (cls.text indent) = [] := by
  have hnone : aliasRule.next? (cls.text indent) = none := by
    refine HeaderRule.next?_eq_none (fun text htext => ?_) (avoids_text cls indent)
    show (keywordAndName? ["type"] text).map _ = none
    rw [keywordAndName?_eq_none htext]
    rfl
  rw [HeaderRule.all]
  split
  · rename_i hsome
    rw [hnone] at hsome
    exact absurd hsome (by simp)
  · rfl

end Aliases

/-! ## The whole class -/

section Whole

variable {cls : ClassTerm}

/-- The class's keyword and name are found at its start. -/
theorem keywordAndName?_class (name : Ident reservedWords) {c : Char}
    (hc : isDollarNameChar c = false) (rest : Text) :
    keywordAndName? ["class", "interface", "enum"]
        (ClassTerm.keyword ++ (name.chars ++ c :: rest)) =
      some ("class", name.chars, c :: rest) := by
  have hspan : spanWord (ClassTerm.keyword ++ (name.chars ++ c :: rest)) =
      ("class".toList, ' ' :: (name.chars ++ c :: rest)) := rfl
  have hblanks : afterBlanks? (' ' :: (name.chars ++ c :: rest)) =
      some (name.chars ++ c :: rest) := by
    rw [afterBlanks?, if_pos (by decide), name.tidy.stripStart_append]
  unfold keywordAndName?
  rw [hspan]
  simp only [String.ofList_toList, hblanks, Option.bind_some, name.dollarName?_append hc]
  rw [if_pos (by decide)]
  rfl

/-- The name of a class is not passed over as a reserved word. -/
theorem isReserved_ident (name : Ident reservedWords) :
    headerRule.isReserved (String.ofList name.chars) = false := by
  have hextends : String.ofList name.chars ≠ "extends" := fun h => name.isFree (by rw [h]; decide)
  have himplements : String.ofList name.chars ≠ "implements" := fun h =>
    name.isFree (by rw [h]; decide)
  show (String.ofList name.chars == "extends" || String.ofList name.chars == "implements") = false
  rw [beq_eq_false_iff_ne.mpr hextends, beq_eq_false_iff_ne.mpr himplements]
  rfl

/-- A header has no type parameters. -/
theorem splitTypeParameters_header (cls : ClassTerm) (behind : Text) :
    splitTypeParameters (cls.header ++ '\x7b' :: behind) =
      ([], cls.header ++ '\x7b' :: behind) := by
  have hangle : (stripStart (cls.header ++ '\x7b' :: behind)).head? ≠ some '<' := by
    intro hhead
    rcases List.mem_append.mp (mem_of_head?_stripStart (by decide) hhead) with hmem | hmem
    · exact (spelled_header cls).not_mem (by decide) (by decide) hmem
    · exact absurd hmem (by decide)
  unfold splitTypeParameters
  exact if_neg hangle

/-- The body starts behind the header. -/
theorem bodyStart?_header (cls : ClassTerm) (behind : Text) :
    bodyStart? (cls.header ++ '\x7b' :: behind) 0 true = some cls.header.length := by
  refine bodyStart?_append ((spelled_header cls).forall_mem ?_ (forall_chars (by decide))) true behind
  exact fun c hc => ⟨isOrdinary_of_identChar hc, ne_of_identChar hc (by decide)⟩

/-- A body closes every bracket that it opens. -/
theorem balanced_body (cls : ClassTerm) (indent : Nat) :
    Balanced .all (fun _ => True) (cls.body indent) := by
  refine Balanced.indented trivial trivial ?_
  intro line hline
  obtain ⟨member, _, rfl⟩ := List.mem_map.mp hline
  exact balanced_line member

/-- The facts of a written class: it is declared, and then its features are told. -/
theorem facts_text (cls : ClassTerm) (indent : Nat) :
    facts (cls.text indent) =
      .declares cls.name.name .cls "class" none ::
        cls.features.map (Feature.toFact cls.name.name) := by
  have hnext : headerRule.next? (cls.text indent) = some ⟨"class", cls.name.chars, 0,
      cls.header ++ '\x7b' :: (cls.body indent ++ ['\x7d'])⟩ :=
    HeaderRule.next?_of_read? (keywordAndName?_class cls.name (c := ' ') (by decide) _)
      (isReserved_ident cls.name)
  have hclosing : closingAt? (cls.header ++ '\x7b' :: (cls.body indent ++ ['\x7d']))
      cls.header.length = some ((cls.body indent).length + 1 + cls.header.length) :=
    closingAt?_append (balanced_body cls indent) rfl cls.header []
  have hbody : bodyFacts "class" cls.name.name (cls.body indent) =
      ((cls.members.map Member.toClassMember).flatMap ClassMember.features).map
        (Feature.toFact cls.name.name) := by
    rw [bodyFacts, if_neg (by decide)]
    exact memberFacts_body cls.name.name indent cls.members
  -- reading goes on behind the body, where nothing is left
  have hend : declarationFacts [] = [] := by
    have hnone : headerRule.next? [] = none := by
      rw [HeaderRule.next?, HeaderRule.nextFrom?]
    rw [declarationFacts]
    split
    · rfl
    · rename_i hsome
      rw [hnone] at hsome
      exact absurd hsome (by simp)
  have hparams : ∀ owner, typeParameterFacts owner [] = [] := by
    have hsplit : splitTop [] = [] := by decide +kernel
    intro owner
    rw [typeParameterFacts, hsplit]
    rfl
  rw [facts, content_text, all_aliasRule_text, List.flatMap_nil, List.nil_append, declarationFacts]
  split
  · rename_i hnone
    rw [hnext] at hnone
    exact absurd hnone (by simp)
  · rename_i found hsome
    rw [hnext] at hsome
    cases hsome
    have hname : String.ofList cls.name.chars = cls.name.name := rfl
    simp only [splitTypeParameters_header, bodyStart?_header, hclosing, hname, List.take_left,
      take_drop_group, drop_group, hend, hparams, headerFacts_header, hbody]
    simp only [ClassTerm.features, Entity.classFeatures, List.map_append, List.append_assoc,
      List.append_nil, List.nil_append, List.cons_append]
    rfl

/-- Reading a well-formed class as it is written gives that class and nothing else: its name, the
base and the interfaces, its fields and its methods in order with their types as written, and what
these types use. -/
theorem ofContributions_typescript_class (h : cls.WellFormed) (indent : Nat) :
    (Source.read { text := cls.text indent } .typeScript).fault = none ∧
      Model.ofContributions [⟨.typeScript, { text := cls.text indent }⟩] = ⟨[cls.entity]⟩ := by
  have hother : ∀ other ∈ cls.baseNames ++ cls.interfaceNames,
      other ≠ "" ∧ other ≠ cls.name.name := by
    intro other hmem
    refine ⟨?_, h.related_other other hmem⟩
    rcases List.mem_append.mp hmem with hmem | hmem
    · obtain ⟨base, _, rfl⟩ := List.mem_map.mp hmem
      exact base.last.name_ne_empty
    · obtain ⟨interface, _, rfl⟩ := List.mem_map.mp hmem
      exact interface.last.name_ne_empty
  have hgain : ({ name := cls.name.name } : Entity).gainAll (Entity.classFeatures cls.baseNames
      cls.interfaceNames (cls.members.map Member.toClassMember ++ [])) = cls.entity :=
    Entity.gainAll_class (by simp) h.fields_distinct h.methods_distinct hother
  refine ⟨rfl, ?_⟩
  show Model.empty.applyAll ((facts (cls.text indent)).map (Finding.mk .typeScript)) = _
  rw [List.append_nil] at hgain
  rw [facts_text, Model.applyAll_declared, ClassTerm.features, hgain]

/-- A class with a base and two interfaces, and with types of every form. -/
def store : ClassTerm :=
  let entry : TypeTerm := .named { first := { chars := "Entry".toList } }
  let key : TypeTerm := .named { first := { chars := "Key".toList } }
  let table : Dotted reservedWords := ⟨{ chars := "data".toList }, [{ chars := "Table".toList }]⟩
  { name := { chars := "Store".toList }
    base := some table
    interfaces := [
      { first := { chars := "Saves".toList } },
      { first := { chars := "Loads".toList } }]
    members := [
      .field { chars := "entries".toList } (.applied table [key, .array entry]),
      .field { chars := "pick".toList }
        (.array (.paren (.joined .union entry
          (.paren (.function [({ chars := "key".toList }, key)] entry)) []))),
      .method { chars := "search".toList }
        [({ chars := "by".toList },
            .function [] (.applied { first := { chars := "Test".toList } } [entry])),
          ({ chars := "more".toList }, .joined .intersection entry key [])]
        (.array entry)] }

theorem store_read : store.WellFormed ∧
    String.ofList (store.text 2) = "class Store extends data.Table implements Saves, Loads \x7b
  entries: data.Table<Key, Entry[]>;
  pick: (Entry | ((key: Key) => Entry))[];
  search(by: () => Test<Entry>, more: Entry & Key): Entry[] \x7b \x7d
\x7d" ∧
    Model.ofContributions [⟨.typeScript, { text := store.text 2 }⟩] = ⟨[store.entity]⟩ := by
  have hstore : store.WellFormed :=
    { related_other := by decide
      fields_distinct := by decide
      methods_distinct := by decide }
  refine ⟨hstore, ?_, (ofContributions_typescript_class hstore 2).2⟩
  -- unfolded, the text and the literal are the same list of characters
  set_option maxRecDepth 4000 in
  rfl

end Whole

end TypeScript

end ClassDiagram
