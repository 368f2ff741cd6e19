import ClassDiagram.Proofs.Loading.Trace
import ClassDiagram.Proofs.Model.Members
import ClassDiagram.Proofs.Reading.Titles
import ClassDiagram.Proofs.Text.Mark

/-!
# What the records of a run tell

A record is read by its text. The findings behind the records can be told from the texts: a member
is announced by the tag of its language and a word for it, an edge by the key of its language. So what
is known of the trace of findings is known of the records.

* `Record.TellsMember`, `Record.TellsEdge`, `Record.IsEdge`: what a record tells, by its text alone.
* `Record.tellsMember_ofFinding`, `Record.tellsEdge_ofFinding`: the findings whose records do so.
* `Session.Faithful`: the records of a session tell its model.
* `Session.contributeAll_traced`: this holds after every run of contributions.
-/

namespace ClassDiagram

open Text

/-! ## Messages -/

namespace Language

theorem space_not_mem_tag (language : Language) :
    ' ' ∉ language.tag.toList ∧ ' ' ∉ language.key.toList := by
  cases language <;> decide

theorem tag_injective : Function.Injective tag := by
  intro language other h
  cases language <;> cases other <;> first | rfl | exact absurd h (by decide)

theorem key_injective : Function.Injective key := by
  intro language other h
  cases language <;> cases other <;> first | rfl | exact absurd h (by decide)

theorem tag_ne_key (language other : Language) : language.tag ≠ other.key := by
  cases language <;> cases other <;> decide

/-- A message that begins with a tag tells the language by it. -/
theorem tag_append_inj {language other : Language} {rest tail : Text}
    (h : language.tag.toList ++ ' ' :: rest = other.tag.toList ++ ' ' :: tail) :
    language = other ∧ rest = tail := by
  obtain ⟨htag, hrest⟩ :=
    append_mark_inj language.space_not_mem_tag.1 other.space_not_mem_tag.1 h
  exact ⟨tag_injective (String.toList_inj.mp htag), hrest⟩

/-- A message that begins with a key tells the language by it. -/
theorem key_append_inj {language other : Language} {rest tail : Text}
    (h : language.key.toList ++ ' ' :: rest = other.key.toList ++ ' ' :: tail) :
    language = other ∧ rest = tail := by
  obtain ⟨hkey, hrest⟩ :=
    append_mark_inj language.space_not_mem_tag.2 other.space_not_mem_tag.2 h
  exact ⟨key_injective (String.toList_inj.mp hkey), hrest⟩

/-- A message that begins with a tag begins with no key. -/
theorem tag_append_ne_key_append (language other : Language) (rest tail : Text) :
    language.tag.toList ++ ' ' :: rest ≠ other.key.toList ++ ' ' :: tail := by
  intro h
  obtain ⟨hsame, -⟩ := append_mark_inj language.space_not_mem_tag.1 other.space_not_mem_tag.2 h
  exact tag_ne_key language other (String.toList_inj.mp hsame)

end Language

namespace Record

/-- The words by which members are announced. -/
def memberWords : List String :=
  ["field", "parameter property", "enum member", "enum constant", "method"]

/-- Whether a record tells a member: after the tag of a language and the word for the member stand
its owner and, behind a point, the member itself. -/
def TellsMember (record : Record) : Prop :=
  ∃ language : Language, ∃ word ∈ memberWords, ∃ owner member : String,
    record.message = s!"{language.tag} {word} {owner}.{member}"

/-- Whether a record tells the edge from one name to another. -/
def TellsEdge (owner used : String) (record : Record) : Prop :=
  ∃ language : Language, record.message = s!"{language.key} edge {owner} ..> {used}"

/-- Whether a record tells some edge. -/
def IsEdge (record : Record) : Prop :=
  ∃ (language : Language) (rest : String), record.message = s!"{language.key} edge {rest}"

/-- A member is told exactly if there is a point behind one of the words. -/
theorem tellsMember_iff {record : Record} :
    record.TellsMember ↔ ∃ language : Language, ∃ word ∈ memberWords, ∃ rest,
      record.message.toList = language.tag.toList ++ ' ' :: (word.toList ++ ' ' :: rest) ∧
        '.' ∈ rest := by
  constructor
  · rintro ⟨language, word, hword, owner, member, heq⟩
    refine ⟨language, word, hword, owner.toList ++ '.' :: member.toList, ?_, by simp⟩
    simp [heq, toString]
  · rintro ⟨language, word, hword, rest, heq, hpoint⟩
    obtain ⟨owner, member, rfl⟩ := List.append_of_mem hpoint
    refine ⟨language, word, hword, String.ofList owner, String.ofList member, ?_⟩
    refine String.toList_inj.mp ?_
    simp [heq, toString]

theorem tellsEdge_iff {owner used : String} {record : Record} :
    record.TellsEdge owner used ↔ ∃ language : Language,
      record.message.toList = language.key.toList ++ ' ' ::
        ("edge ".toList ++ (owner.toList ++ ' ' :: ("..> ".toList ++ used.toList))) := by
  refine exists_congr fun language => ?_
  rw [← String.toList_inj]
  simp [toString]

/-! ## What the record of a finding tells -/

/-- A message whose word begins otherwise than the words for members tells none. -/
theorem not_tellsMember_of_head {language : Language} {fact : Fact} (c : Char) (text : Text)
    (h : (Finding.message ⟨language, fact⟩).toList = language.tag.toList ++ ' ' :: c :: text)
    (hc : c ∉ ['f', 'p', 'e', 'm']) : ¬ (ofFinding ⟨language, fact⟩).TellsMember := by
  rw [tellsMember_iff]
  rintro ⟨other, word, hword, rest, heq, -⟩
  obtain ⟨-, htext⟩ := Language.tag_append_inj (h.symm.trans heq)
  refine hc ?_
  have hheads : ∀ word ∈ memberWords, word.toList.head? ∈ ['f', 'p', 'e', 'm'].map some := by decide
  have hhead := hheads word hword
  cases hletters : word.toList with
  | nil => rw [hletters] at hhead; exact absurd hhead (by decide)
  | cons first others =>
      rw [hletters, List.cons_append] at htext
      rw [hletters, List.head?_cons, ← (List.cons.inj htext).1] at hhead
      simpa using hhead

theorem point_not_mem_place (n : Nat) : '.' ∉ "at offset ".toList ++ (toString n).toList := by
  rw [List.mem_append, not_or]
  refine ⟨by decide, fun hpoint => ?_⟩
  have hdigit := Nat.isDigit_of_mem_toDigits (by decide) (by decide)
    (Nat.toList_repr ▸ hpoint : '.' ∈ Nat.toDigits 10 n)
  exact absurd hdigit (by decide)

/-- The message of a declaration: its word, its name and the place, if that is told. -/
theorem toList_message_declares (language : Language) (name : String) (kind : Kind) (word : String)
    (offset : Option Nat) :
    (Finding.message ⟨language, .declares name kind word offset⟩).toList =
      language.tag.toList ++ ' ' :: (word.toList ++ ' ' :: (name.toList ++
        (offset.map fun n => ' ' :: ("at offset ".toList ++ (toString n).toList)).getD [])) := by
  cases offset <;> simp [Finding.message, toString]

/-- The message of a use: the edge from the user to the used. -/
theorem toList_message_uses (language : Language) (owner used : String) :
    (Finding.message ⟨language, .uses owner used⟩).toList = language.key.toList ++ ' ' ::
      ("edge ".toList ++ (owner.toList ++ ' ' :: ("..> ".toList ++ used.toList))) := by
  simp [Finding.message, toString]

/-- The message of a finding that is no use begins with a tag. -/
theorem exists_toList_message (language : Language) {fact : Fact} (h : fact.edge? = none) :
    ∃ rest, (Finding.message ⟨language, fact⟩).toList = language.tag.toList ++ ' ' :: rest := by
  cases fact with
  | uses => exact absurd h (by simp [Fact.edge?])
  | declares name kind word offset => exact ⟨_, toList_message_declares ..⟩
  | enumMember | method => cases language <;> simp [Finding.message, toString]
  | _ => simp [Finding.message, toString]

/-- An enumeration may be called like the second word for its members, `enum member at offset 0`.
Then there is no point behind it. -/
theorem not_tellsMember_enum {language : Language} {name : String} {kind : Kind}
    {offset : Option Nat} (hname : ' ' ∉ name.toList) :
    ¬ (ofFinding ⟨language, .declares name kind "enum" offset⟩).TellsMember := by
  rw [tellsMember_iff]
  rintro ⟨other, word, hword, rest, heq, hpoint⟩
  rw [show (ofFinding _).message = Finding.message _ from rfl, toList_message_declares] at heq
  obtain ⟨-, htext⟩ := Language.tag_append_inj heq
  -- the only words that begin so are `enum member` and `enum constant`
  obtain ⟨second, hsecond, hbehind⟩ : ∃ second : Text, ' ' ∉ second ∧
      name.toList ++ (offset.map fun n =>
        ' ' :: ("at offset ".toList ++ (toString n).toList)).getD [] = second ++ ' ' :: rest := by
    simp only [memberWords, List.mem_cons, List.not_mem_nil, or_false] at hword
    rcases hword with rfl | rfl | rfl | rfl | rfl
    · exact absurd htext (by simp)
    · exact absurd htext (by simp)
    · exact ⟨"member".toList, by decide, by simpa using htext⟩
    · exact ⟨"constant".toList, by decide, by simpa using htext⟩
    · exact absurd htext (by simp)
  cases offset with
  | none =>
      rw [Option.map_none, Option.getD_none, List.append_nil] at hbehind
      exact hname (hbehind ▸ by simp)
  | some n =>
      obtain ⟨-, rfl⟩ := append_mark_inj hname hsecond hbehind
      exact point_not_mem_place n hpoint

/-- A declaration tells no member. -/
theorem not_tellsMember_declares {language : Language} {name word : String} {kind : Kind}
    {offset : Option Nat} (h : (Fact.declares name kind word offset).Titled) :
    ¬ (ofFinding ⟨language, .declares name kind word offset⟩).TellsMember := by
  obtain ⟨hword, hname⟩ := h
  have hmessage := toList_message_declares language name kind word offset
  simp only [Fact.Worded, Fact.titleWords, List.mem_cons, List.not_mem_nil, or_false] at hword
  rcases hword with rfl | rfl | rfl | rfl | rfl | rfl
  · exact not_tellsMember_of_head _ _ hmessage (by decide)
  · exact not_tellsMember_of_head _ _ hmessage (by decide)
  · exact not_tellsMember_of_head _ _ hmessage (by decide)
  · exact not_tellsMember_of_head _ _ hmessage (by decide)
  · exact not_tellsMember_enum (hname name rfl)
  · exact not_tellsMember_of_head _ _ hmessage (by decide)

/-- The finding of a member is recorded with one of the words, its owner and the member. -/
theorem tellsMember_of_isMember {language : Language} {fact : Fact} (h : fact.isMember = true) :
    (ofFinding ⟨language, fact⟩).TellsMember := by
  have htold : ∀ word ∈ memberWords, ∀ owner member : String,
      (Finding.message ⟨language, fact⟩).toList =
        language.tag.toList ++ ' ' :: (word.toList ++ ' ' :: (owner.toList ++ '.' ::
          member.toList)) →
      (ofFinding ⟨language, fact⟩).TellsMember := by
    intro word hword owner member hmessage
    exact tellsMember_iff.mpr ⟨language, word, hword, _, hmessage, by simp⟩
  cases fact with
  | declares | openBody | openShape | inherits | realizes | uses =>
      exact absurd h (by simp [Fact.isMember])
  | field owner name type =>
      refine htold "field" (by decide) owner s!"{name}: {type}" ?_
      simp [Finding.message, toString]
  | parameterProperty owner name type =>
      refine htold "parameter property" (by decide) owner s!"{name}: {type}" ?_
      simp [Finding.message, toString]
  | enumMember owner name label =>
      -- Java calls them constants
      cases language with
      | java =>
          refine htold "enum constant" (by decide) owner label ?_
          simp [Finding.message, toString]
      | _ =>
          refine htold "enum member" (by decide) owner label ?_
          simp [Finding.message, toString]
  | enumValue owner name =>
      refine htold "enum member" (by decide) owner name ?_
      simp [Finding.message, toString]
  | method owner value =>
      cases language with
      | cSharp | typeScript =>
          refine htold "method" (by decide) owner
            s!"{value.name}({value.paramList}): {value.result}" ?_
          simp [Finding.message, toString]
      | python | java =>
          refine htold "method" (by decide) owner value.label ?_
          simp [Finding.message, toString]

/-- A record tells a member exactly if it is that of a finding that tells one. -/
theorem tellsMember_ofFinding {finding : Finding} (h : finding.fact.Titled) :
    (ofFinding finding).TellsMember ↔ finding.fact.isMember = true := by
  obtain ⟨language, fact⟩ := finding
  refine ⟨fun htells => ?_, tellsMember_of_isMember⟩
  cases fact with
  | declares name kind word offset => exact absurd htells (not_tellsMember_declares h)
  | openBody name =>
      refine absurd htells (not_tellsMember_of_head 'b'
        ("ody of ".toList ++ (name.toList ++ " is unterminated".toList)) ?_ (by decide))
      simp [Finding.message, toString]
  | openShape name =>
      refine absurd htells (not_tellsMember_of_head 'a'
        ("lias ".toList ++ (name.toList ++ " has an unterminated shape".toList)) ?_ (by decide))
      simp [Finding.message, toString]
  | inherits owner base =>
      refine absurd htells (not_tellsMember_of_head 'i'
        ("nheritance ".toList ++ (base.toList ++ (" <|-- ".toList ++ owner.toList))) ?_ (by decide))
      simp [Finding.message, toString]
  | realizes owner interface =>
      refine absurd htells (not_tellsMember_of_head 'r'
        ("ealization ".toList ++ (interface.toList ++ (" <|.. ".toList ++ owner.toList))) ?_
        (by decide))
      simp [Finding.message, toString]
  -- a use is announced by the key of its language, a member by the tag
  | uses owner used =>
      obtain ⟨other, word, -, rest, heq, -⟩ := tellsMember_iff.mp htells
      rw [show (ofFinding _).message = Finding.message _ from rfl, toList_message_uses] at heq
      exact absurd heq.symm (Language.tag_append_ne_key_append _ _ _ _)
  | _ => rfl

theorem isEdge_iff {record : Record} :
    record.IsEdge ↔ ∃ language : Language, ∃ rest,
      record.message.toList = language.key.toList ++ ' ' :: ("edge ".toList ++ rest) := by
  refine exists_congr fun language => ⟨?_, ?_⟩
  · rintro ⟨rest, heq⟩
    exact ⟨rest.toList, by simp [heq, toString]⟩
  · rintro ⟨rest, heq⟩
    exact ⟨String.ofList rest, String.toList_inj.mp (by simp [heq, toString])⟩

/-- A record that tells an edge tells some edge. -/
theorem TellsEdge.isEdge {record : Record} {owner used : String} (h : record.TellsEdge owner used) :
    record.IsEdge := by
  obtain ⟨language, heq⟩ := tellsEdge_iff.mp h
  exact isEdge_iff.mpr ⟨language, _, heq⟩

/-- A record tells some edge exactly if it is that of a use. -/
theorem isEdge_ofFinding {finding : Finding} :
    (ofFinding finding).IsEdge ↔ finding.fact.edge?.isSome = true := by
  obtain ⟨language, fact⟩ := finding
  rw [isEdge_iff]
  cases hedge : fact.edge? with
  | none =>
      obtain ⟨tail, htail⟩ := exists_toList_message language hedge
      refine iff_of_false ?_ (by simp)
      rintro ⟨other, rest, heq⟩
      exact Language.tag_append_ne_key_append _ _ _ _ (htail.symm.trans heq)
  | some edge =>
      cases fact with
      | uses owner used =>
          exact iff_of_true ⟨language, _, toList_message_uses language owner used⟩ rfl
      | _ => exact absurd hedge (by simp [Fact.edge?])

/-- A record tells an edge exactly if it is that of the use: as long as the users hold no spaces, two
edges are not told alike. -/
theorem tellsEdge_ofFinding {finding : Finding} {owner used : String} (howner : ' ' ∉ owner.toList)
    (hfinding : ∀ edge ∈ finding.fact.edge?, ' ' ∉ edge.1.toList) :
    (ofFinding finding).TellsEdge owner used ↔ finding.fact.edge? = some (owner, used) := by
  obtain ⟨language, fact⟩ := finding
  cases fact with
  | uses user name =>
      have huser : ' ' ∉ user.toList := hfinding (user, name) rfl
      have hmessage := toList_message_uses language user name
      rw [tellsEdge_iff]
      constructor
      · rintro ⟨other, heq⟩
        obtain ⟨-, htext⟩ := Language.key_append_inj (hmessage.symm.trans heq)
        obtain ⟨hsame, hused⟩ := append_mark_inj huser howner (List.append_cancel_left htext)
        rw [String.toList_inj.mp hsame, String.toList_inj.mp (List.append_cancel_left hused)]
        rfl
      · intro heq
        cases heq
        exact ⟨language, hmessage⟩
  | _ =>
      refine iff_of_false (fun htells => ?_) (by simp [Fact.edge?])
      exact absurd (isEdge_ofFinding.mp htells.isEdge) (by simp [Fact.edge?])

/-- With a space in a name, two edges may read alike. -/
example : (ofFinding ⟨.java, .uses "A ..> B" "C"⟩).TellsEdge "A" "B ..> C" := ⟨.java, by decide⟩

end Record

/-! ## Telling by computation -/

/-- All languages. -/
def Language.all : List Language := [.cSharp, .java, .python, .typeScript]

theorem Language.mem_all (language : Language) : language ∈ all := by
  cases language <;> decide

namespace Record

/-- What stands before the owner in a message that tells a member. -/
def memberLead (language : Language) (word : String) : Text :=
  language.tag.toList ++ ' ' :: (word.toList ++ [' '])

theorem tellsMember_iff_lead {record : Record} :
    record.TellsMember ↔ ∃ language ∈ Language.all, ∃ word ∈ memberWords,
      memberLead language word <+: record.message.toList ∧
        '.' ∈ record.message.toList.drop (memberLead language word).length := by
  have hlead : ∀ (language : Language) (word : String) (rest : Text),
      language.tag.toList ++ ' ' :: (word.toList ++ ' ' :: rest) =
        memberLead language word ++ rest := by
    intro language word rest
    simp [memberLead]
  rw [tellsMember_iff]
  constructor
  · rintro ⟨language, word, hword, rest, heq, hpoint⟩
    rw [hlead] at heq
    refine ⟨language, language.mem_all, word, hword, ⟨rest, heq.symm⟩, ?_⟩
    rwa [heq, List.drop_left]
  · rintro ⟨language, -, word, hword, ⟨rest, heq⟩, hpoint⟩
    rw [← heq, List.drop_left] at hpoint
    exact ⟨language, word, hword, rest, by rw [hlead, heq], hpoint⟩

instance : DecidablePred TellsMember := fun _ => decidable_of_iff _ tellsMember_iff_lead.symm

theorem tellsEdge_iff_mem {owner used : String} {record : Record} :
    record.TellsEdge owner used ↔ record.message ∈
      Language.all.map fun language => s!"{language.key} edge {owner} ..> {used}" := by
  simp [TellsEdge, Language.mem_all, eq_comm]

instance (owner used : String) : DecidablePred (TellsEdge owner used) :=
  fun _ => decidable_of_iff _ tellsEdge_iff_mem.symm

end Record

/-! ## The records of a run -/

namespace Session

/-- Whether the records of a session tell its model: as many members as there are, no edge twice,
every dependency by one edge, and no other edges but those to bases and interfaces. -/
structure Faithful (session : Session) : Prop where
  debug : ∀ record ∈ session.records, record.level = .debug
  members : (session.records.countP fun record => record.TellsMember) = session.model.memberCount
  edges_once : ∀ entity ∈ session.model.entities, ∀ used,
    (session.records.countP fun record => record.TellsEdge entity.name used) ≤ 1
  dependencies_told : ∀ entity ∈ session.model.entities, ∀ used ∈ entity.dependencies,
    (session.records.countP fun record => record.TellsEdge entity.name used) = 1
  edges_owned : ∀ record ∈ session.records, record.IsEdge →
    ∃ entity ∈ session.model.entities, ∃ used, record.TellsEdge entity.name used
  edges_related : ∀ record ∈ session.records, ∀ entity ∈ session.model.entities, ∀ used,
    record.TellsEdge entity.name used → used ∉ entity.dependencies →
      used ∈ entity.bases ∨ used ∈ entity.interfaces

section Run

variable {contributions : List Contribution}
  (h : ∀ contribution ∈ contributions, contribution.language = .java →
    ∀ name ∈ declaredNames contribution.findings, ' ' ∉ name.toList)

include h

/-- All that is noted in a run is titled. -/
theorem titled_noted :
    ∀ finding ∈ Model.empty.noted (contributions.flatMap Contribution.findings),
      finding.fact.Titled := by
  intro finding hfinding
  obtain ⟨contribution, hmem, hfound⟩ := List.mem_flatMap.mp (Model.noted_subset _ _ hfinding)
  exact Contribution.titled_findings (h contribution hmem) finding hfound

/-- No entity of a run has a name with a space. -/
theorem space_not_mem_name {entity : Entity}
    (hentity : entity ∈ (Model.ofContributions contributions).entities) :
    ' ' ∉ entity.name.toList := by
  have hname : entity.name ∈ (Model.ofContributions contributions).names :=
    List.mem_map_of_mem hentity
  rw [Model.ofContributions_eq, Model.mem_names_applyAll] at hname
  obtain ⟨finding, hfinding, hdeclared⟩ :=
    List.mem_filterMap.mp (hname.resolve_left List.not_mem_nil)
  obtain ⟨contribution, hmem, hfound⟩ := List.mem_flatMap.mp hfinding
  exact (Contribution.titled_findings (h contribution hmem) finding hfound).2 _ hdeclared

/-- A record of the run tells an edge of an entity exactly if it is that of the use. -/
theorem tellsEdge_noted {finding : Finding}
    (hfinding : finding ∈ Model.empty.noted (contributions.flatMap Contribution.findings))
    {entity : Entity} (hentity : entity ∈ (Model.ofContributions contributions).entities)
    {used : String} :
    (Record.ofFinding finding).TellsEdge entity.name used ↔
      finding.fact.edge? = some (entity.name, used) := by
  obtain ⟨hmodel, -, -, -, -, hrelated⟩ := contributeAll_told [] [] contributions
  refine Record.tellsEdge_ofFinding (space_not_mem_name h hentity) fun edge hedge => ?_
  -- the user of an edge that is noted is an entity of the model
  obtain ⟨user, huser, hname, -⟩ :=
    hrelated edge (List.mem_filterMap.mpr ⟨finding, hfinding, hedge⟩)
  rw [← hname]
  exact space_not_mem_name h (hmodel ▸ huser)

/-- The records of a run tell the model that it makes. -/
theorem faithful_contributeAll (languages : List Language) (ignored : List String) :
    (contributeAll { languages := languages, ignored := ignored } contributions).Faithful := by
  obtain ⟨hmodel, hrecords, hmembers, honce, htold, hrelated⟩ :=
    contributeAll_told languages ignored contributions
  rw [hmodel] at hmembers htold hrelated
  -- the edges are counted by the records as by the findings
  have hcount : ∀ entity ∈ (Model.ofContributions contributions).entities, ∀ used,
      ((Model.empty.noted (contributions.flatMap Contribution.findings)).map
          Record.ofFinding).countP (fun record => record.TellsEdge entity.name used) =
        (Finding.edges (Model.empty.noted (contributions.flatMap Contribution.findings))).count
          (entity.name, used) := by
    intro entity hentity used
    rw [List.countP_map, Finding.edges, List.count_filterMap]
    refine List.countP_congr fun finding hfinding => ?_
    simp [tellsEdge_noted h hfinding hentity]
  constructor
  · rw [hrecords]
    exact List.forall_mem_map.mpr fun finding _ => rfl
  · rw [hrecords, hmodel, ← hmembers, List.countP_map]
    refine List.countP_congr fun finding hfinding => ?_
    simp [Record.tellsMember_ofFinding (titled_noted h finding hfinding)]
  · intro entity hentity used
    rw [hmodel] at hentity
    rw [hrecords, hcount entity hentity]
    exact honce entity.name used
  · intro entity hentity used hused
    rw [hmodel] at hentity
    rw [hrecords, hcount entity hentity]
    exact htold entity hentity used hused
  · intro record hrecord hedge
    rw [hrecords] at hrecord
    obtain ⟨finding, hfinding, rfl⟩ := List.mem_map.mp hrecord
    obtain ⟨edge, hedge⟩ := Option.isSome_iff_exists.mp (Record.isEdge_ofFinding.mp hedge)
    obtain ⟨entity, hentity, hname, -⟩ :=
      hrelated edge (List.mem_filterMap.mpr ⟨finding, hfinding, hedge⟩)
    rw [hmodel]
    refine ⟨entity, hentity, edge.2, (tellsEdge_noted h hfinding hentity).mpr ?_⟩
    rw [hedge, hname]
  · intro record hrecord entity hentity used htells hno
    rw [hrecords] at hrecord
    rw [hmodel] at hentity
    obtain ⟨finding, hfinding, rfl⟩ := List.mem_map.mp hrecord
    have hedge := (tellsEdge_noted h hfinding hentity).mp htells
    obtain ⟨user, huser, hname, hother⟩ :=
      hrelated _ (List.mem_filterMap.mpr ⟨finding, hfinding, hedge⟩)
    -- names are distinct, so that the user of the edge is the entity
    have hsound : (Model.ofContributions contributions).Sound := by
      rw [Model.ofContributions_eq]
      exact Model.sound_empty.applyAll _
    have hsame : some user = some entity := by
      rw [← hsound.find?_name huser, ← hsound.find?_name hentity, hname]
    cases hsame
    exact hother hno

end Run

/-- The trace of a run of contributions, in any languages and also with readings that break off,
agrees with the model in the end. Each finding that is noted makes one record. As many members are
told as the model has. No edge is told twice; every dependency is told by exactly one edge, and every
other edge leads to a base or an interface of the same entity. All this holds of the findings; it can
be read off the texts of the records if no declared name holds a space, which only a syntax tree of
Java could bring in. -/
theorem contributeAll_traced (languages : List Language) (ignored : List String)
    (contributions : List Contribution) :
    let session := contributeAll { languages := languages, ignored := ignored } contributions
    let trace := Model.empty.noted (contributions.flatMap Contribution.findings)
    session.model = Model.ofContributions contributions ∧
      ((∀ contribution ∈ contributions, contribution.language = .java →
        ∀ name ∈ declaredNames contribution.findings, ' ' ∉ name.toList) → session.Faithful) ∧
      session.records = trace.map Record.ofFinding ∧
      (trace.countP fun finding => finding.fact.isMember) = session.model.memberCount ∧
      (∀ owner used, (Finding.edges trace).count (owner, used) ≤ 1) ∧
      (∀ entity ∈ session.model.entities, ∀ used ∈ entity.dependencies,
        (Finding.edges trace).count (entity.name, used) = 1) ∧
      ∀ edge ∈ Finding.edges trace, ∃ entity ∈ session.model.entities, entity.name = edge.1 ∧
        (edge.2 ∉ entity.dependencies → edge.2 ∈ entity.bases ∨ edge.2 ∈ entity.interfaces) := by
  intro session trace
  obtain ⟨hmodel, hrest⟩ := contributeAll_told languages ignored contributions
  exact ⟨hmodel, fun h => faithful_contributeAll h languages ignored, hrest⟩

/-- The syntax tree of `class Perch { Coop c; }`. -/
def perchTree : Node :=
  let node (type : String) (start stop : Nat) (role : Option String) (children : List Node) : Node :=
    .mk { type := type, start := start, stop := stop, role := role } children
  node "program" 0 23 none [
    node "class_declaration" 0 23 none [
      node "identifier" 6 11 (some "name") [],
      node "class_body" 12 23 (some "body") [
        node "field_declaration" 14 21 none [
          node "type_identifier" 14 18 (some "type") [],
          node "variable_declarator" 19 20 (some "declarator") [
            node "identifier" 19 20 (some "name") []]]]]]

/-- A class with a field, then the class again with what was the type of the field as its base, and
two more classes, each of the four in a language of its own. -/
def henRun : List Contribution := [
  ⟨.typeScript, { text := "class Hen \x7b home: Coop; \x7d".toList }⟩,
  ⟨.cSharp, { text := "class Hen : Coop \x7b int Eggs; \x7d".toList }⟩,
  ⟨.python, { text := "class Coop:\n    size: int".toList }⟩,
  ⟨.java, { text := "class Perch \x7b Coop c; \x7d".toList, tree := some perchTree }⟩]

/-- The records of the run, text by text. The edge to the later base is told once and then given up;
the four members are told by four records. -/
theorem henRun_traced :
    let session := contributeAll { languages := [], ignored := [] } henRun
    (∀ contribution ∈ henRun, contribution.language = .java →
        ∀ name ∈ declaredNames contribution.findings, ' ' ∉ name.toList) ∧
      session.Faithful ∧
      session.records.map Record.message = [
        "TS class Hen", "TS field Hen.home: Coop", "typescript edge Hen ..> Coop",
        "C# class Hen at offset 0", "C# inheritance Coop <|-- Hen", "C# field Hen.Eggs: int",
        "Python class Coop", "Python field Coop.size: int",
        "Java class Perch", "Java field Perch.c: Coop", "java edge Perch ..> Coop"] ∧
      session.model.memberCount = 4 ∧
      session.model.entities.map (fun entity => (entity.name, entity.bases.toList,
        entity.dependencies.toList)) =
          [("Hen", ["Coop"], []), ("Coop", [], []), ("Perch", [], ["Coop"])] := by
  have hnames : ∀ contribution ∈ henRun, contribution.language = .java →
      ∀ name ∈ declaredNames contribution.findings, ' ' ∉ name.toList := by decide +kernel
  obtain ⟨hmodel, hfaithful, hrecords, -⟩ := contributeAll_traced [] [] henRun
  refine ⟨hnames, hfaithful hnames, ?_⟩
  rw [hrecords, hmodel, Model.ofContributions_eq]
  -- in one evaluation, so that the sources are read once
  decide +kernel

end Session

end ClassDiagram
