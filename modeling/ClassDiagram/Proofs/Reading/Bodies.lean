import ClassDiagram.Proofs.Model.Members
import ClassDiagram.Proofs.Reading.Declarations
import ClassDiagram.Proofs.Scan.Balanced
import ClassDiagram.Proofs.Text.Mark

/-!
# Bodies of TypeScript declarations

Behind a header, reading TypeScript looks for a brace at any distance, over further headers as well.
So a declaration without a body takes the next one, and the header before that is passed over. This
keeps its body only if the search of the first one fails, since a bracket is left open or the body
is not closed: then reading goes on right behind the first name.

* `readHeaders`: the headers at which reading arrives.
* `declarationFacts_eq`: what is told is what each of them tells.
* `exists_readHeaders`: what is read before and behind one of them.
* `keepsBody_following`: which body is taken when another header follows.
-/

namespace ClassDiagram

namespace TypeScript

open Text HeaderRule

/-! ## The headers that are read -/

/-- The name of the entity that a header declares. -/
def nameOf (header : Header) : String := String.ofList header.name

/-- What stands behind the type parameters of a header. -/
def behindOf (header : Header) : Text := (splitTypeParameters header.rest).2

/-- Where the body of a header is found to begin. -/
def start? (header : Header) : Option Nat := (behindOf header).bodyStart? 0 true

/-- The body that a header takes, and what follows it. -/
def body? (header : Header) : Option (Text × Text) :=
  (start? header).bind fun start =>
    ((behindOf header).closingAt? start).map fun close =>
      (((behindOf header).take close).drop (start + 1), (behindOf header).drop (close + 1))

/-- Where reading goes on after a header. -/
def resume (header : Header) : Text := ((body? header).map Prod.snd).getD header.rest

/-- Reading goes on in what follows the header. -/
theorem length_resume_le (header : Header) : (resume header).length ≤ header.rest.length := by
  unfold resume
  cases hbody : body? header with
  | none => exact Nat.le_refl _
  | some found =>
      obtain ⟨start, -, hclose⟩ := Option.bind_eq_some_iff.mp hbody
      obtain ⟨close, -, rfl⟩ := Option.map_eq_some_iff.mp hclose
      have := length_splitTypeParameters_le header.rest
      simp only [Option.map_some, Option.getD_some, List.length_drop, behindOf]
      omega

/-- The headers at which reading arrives: each is searched for behind the body of the one before. -/
def readHeaders (text : Text) : List Header :=
  match h : headerRule.next? text with
  | none => []
  | some header => header :: readHeaders (resume header)
termination_by text.length
decreasing_by exact Nat.lt_of_le_of_lt (length_resume_le header) (length_rest_lt_of_next? h)

/-- Where there is no header, none is read. -/
theorem readHeaders_of_none {text : Text} (h : headerRule.next? text = none) :
    readHeaders text = [] := by
  rw [readHeaders]
  split
  · rfl
  · rename_i hsome
    exact absurd (h.symm.trans hsome) (by simp)

/-- Headers are read one after the other, each from where the last one left off. -/
theorem readHeaders_of_some {text : Text} {header : Header}
    (h : headerRule.next? text = some header) :
    readHeaders text = header :: readHeaders (resume header) := by
  rw [readHeaders]
  split
  · rename_i hnone
    exact absurd (h.symm.trans hnone) (by simp)
  · rename_i hsome
    cases h.symm.trans hsome
    rfl

/-- What a header tells before its body. -/
def leadFacts (header : Header) : List Fact :=
  typeParameterFacts (nameOf header) (splitTypeParameters header.rest).1 ++
    headerFacts (nameOf header)
      (((start? header).map fun place => (behindOf header).take place).getD [])

/-- What a header tells of its body. -/
def ownBodyFacts (header : Header) : List Fact :=
  match body? header with
  | some (body, _) => bodyFacts header.keyword (nameOf header) body
  | none => if (start? header).isSome then [.openBody (nameOf header)] else []

/-- All that a header tells. -/
def ownFacts (header : Header) : List Fact :=
  .declares (nameOf header) (kindOf header.keyword) header.keyword none ::
    (leadFacts header ++ ownBodyFacts header)

/-- Without a brace there is no body. -/
theorem body?_of_unfound {header : Header} (h : start? header = none) : body? header = none := by
  rw [body?, h]
  rfl

/-- The body is what stands up to the brace that closes it. -/
theorem body?_of_start {header : Header} {start : Nat} (h : start? header = some start) :
    body? header = ((behindOf header).closingAt? start).map fun close =>
      (((behindOf header).take close).drop (start + 1), (behindOf header).drop (close + 1)) := by
  rw [body?, h]
  rfl

/-- Without a body, reading goes on right behind the name. -/
theorem resume_of_none {header : Header} (h : body? header = none) :
    resume header = header.rest := by
  rw [resume, h]
  rfl

/-- With a body, reading goes on behind it. -/
theorem resume_of_some {header : Header} {body rest : Text} (h : body? header = some (body, rest)) :
    resume header = rest := by
  rw [resume, h]
  rfl

/-- What is told by the declarations of a text is what the headers tell at which reading arrives. -/
theorem declarationFacts_eq (text : Text) :
    declarationFacts text = (readHeaders text).flatMap ownFacts := by
  fun_induction declarationFacts text with
  | case1 text hnone => rw [readHeaders_of_none hnone]; rfl
  | case2 text header hnext owner params behind start bases declaration hstart ih =>
      have hstart' : start? header = none := hstart
      have hbody := body?_of_unfound hstart'
      rw [readHeaders_of_some hnext, resume_of_none hbody, List.flatMap_cons, ← ih, ownFacts,
        leadFacts, ownBodyFacts, hbody, hstart']
      simp [declaration, bases, hstart, owner, params, nameOf]
  | case3 text header hnext owner params behind start bases declaration place hstart hopen ih =>
      have hstart' : start? header = some place := hstart
      -- a brace that is not closed is no body, and the header ends at its name
      have hbody : body? header = none := by
        rw [body?_of_start hstart']
        exact congrArg _ hopen
      rw [readHeaders_of_some hnext, resume_of_none hbody, List.flatMap_cons, ← ih, ownFacts,
        leadFacts, ownBodyFacts, hbody, hstart']
      simp [declaration, bases, hstart, owner, params, nameOf, behindOf, behind]
  | case4 text header hnext owner params behind start bases declaration place hstart close hclose
      ih =>
      have hstart' : start? header = some place := hstart
      have hbody : body? header =
          some ((behind.take close).drop (place + 1), behind.drop (close + 1)) := by
        rw [body?_of_start hstart']
        exact congrArg _ hclose
      rw [readHeaders_of_some hnext, resume_of_some hbody, List.flatMap_cons, ← ih, ownFacts,
        leadFacts, ownBodyFacts, hbody, hstart']
      simp [declaration, bases, hstart, owner, params, nameOf, behindOf, behind]

/-- Every header that is read leaves less of the text. -/
theorem length_rest_lt_of_mem_readHeaders {text : Text} {header : Header}
    (h : header ∈ readHeaders text) : header.rest.length < text.length := by
  fun_induction readHeaders text with
  | case1 => exact absurd h List.not_mem_nil
  | case2 text first hnext ih =>
      have hfirst := length_rest_lt_of_next? hnext
      rcases List.mem_cons.mp h with rfl | hlater
      · exact hfirst
      · have := ih hlater
        have := length_resume_le first
        omega

/-- What is read before a header and behind it; less is left of the text behind each further one. -/
theorem exists_readHeaders {text : Text} {header : Header} (h : header ∈ readHeaders text) :
    ∃ earlier, readHeaders text = earlier ++ header :: readHeaders (resume header) ∧
      ∀ other ∈ earlier, header.rest.length < other.rest.length := by
  fun_induction readHeaders text with
  | case1 => exact absurd h List.not_mem_nil
  | case2 text first hnext ih =>
      rcases List.mem_cons.mp h with rfl | hlater
      · exact ⟨[], rfl, fun _ hmem => absurd hmem List.not_mem_nil⟩
      · obtain ⟨earlier, heq, hearlier⟩ := ih hlater
        refine ⟨first :: earlier, by rw [heq]; rfl, List.forall_mem_cons.mpr ⟨?_, hearlier⟩⟩
        exact Nat.lt_of_lt_of_le (length_rest_lt_of_mem_readHeaders hlater) (length_resume_le first)

/-! ## What stands before a body -/

theorem not_mem_takeWhile {holds : Char → Bool} {c : Char} (h : holds c = false) (text : Text) :
    c ∉ text.takeWhile holds := by
  intro hmem
  have hc : holds c = true := List.all_eq_true.mp List.all_takeWhile c hmem
  exact absurd (h.symm.trans hc) (by simp)

/-- A sign and the run of signs behind it are read without a brace. -/
theorem exists_read_of_span {holds : Char → Bool} (hholds : holds '\x7b' = false) {c : Char}
    (hc : c ≠ '\x7b') (tail : Text) :
    ∃ read, c :: tail = read ++ tail.dropWhile holds ∧ '\x7b' ∉ read := by
  refine ⟨c :: tail.takeWhile holds, ?_, ?_⟩
  · rw [List.cons_append, List.takeWhile_append_dropWhile]
  · rw [List.mem_cons, not_or]
    exact ⟨hc.symm, not_mem_takeWhile hholds tail⟩

/-- No brace is among skipped blanks. -/
theorem exists_read_of_afterBlanks? {text rest : Text} (h : afterBlanks? text = some rest) :
    ∃ read, text = read ++ rest ∧ '\x7b' ∉ read := by
  cases text with
  | nil => exact absurd h (by simp [afterBlanks?])
  | cons c tail =>
      rw [afterBlanks?] at h
      split at h
      · rename_i hc
        cases h
        exact exists_read_of_span (by decide) (ne_of_class hc (by decide)) tail
      · exact absurd h (by simp)

/-- No brace is in a name that is read. -/
theorem exists_read_of_dollarName? {text name rest : Text}
    (h : dollarName? text = some (name, rest)) : ∃ read, text = read ++ rest ∧ '\x7b' ∉ read := by
  obtain ⟨c, tail, rfl, hc, -, rfl⟩ := nameBy?_eq_some_iff.mp h
  exact exists_read_of_span (by decide) (ne_of_class hc (by decide)) tail

/-- A header is read without a brace. -/
theorem exists_read_of_keywordAndName? {keywords : List String} {text name rest : Text}
    {keyword : String} (h : keywordAndName? keywords text = some (keyword, name, rest)) :
    ∃ read, text = read ++ rest ∧ '\x7b' ∉ read := by
  simp only [keywordAndName?] at h
  split at h
  · obtain ⟨⟨found, behind⟩, hfound, heq⟩ := Option.map_eq_some_iff.mp h
    cases heq
    obtain ⟨inner, hblanks, hname⟩ := Option.bind_eq_some_iff.mp hfound
    obtain ⟨blanks, hbehind, hnoBlank⟩ := exists_read_of_afterBlanks? hblanks
    obtain ⟨read, hinner, hnoName⟩ := exists_read_of_dollarName? hname
    refine ⟨text.takeWhile isWordChar ++ (blanks ++ read), ?_, ?_⟩
    · rw [List.append_assoc, List.append_assoc, ← hinner, ← hbehind]
      exact List.takeWhile_append_dropWhile.symm
    · rw [List.mem_append, List.mem_append, not_or, not_or]
      exact ⟨not_mem_takeWhile (by decide) text, hnoBlank, hnoName⟩
  · exact absurd h (by simp)

/-- Where a header is found, and what it is read from. -/
theorem exists_read_of_nextFrom? {afterWordChar : Bool} {offset : Nat} {text : Text}
    {header : Header} (h : headerRule.nextFrom? afterWordChar offset text = some header) :
    ∃ front read, text = front ++ (read ++ header.rest) ∧ offset + front.length = header.offset ∧
      '\x7b' ∉ read := by
  have hat : ∀ {afterWordChar text keyword name rest},
      headerRule.at? afterWordChar text = some (keyword, name, rest) →
        ∃ read, text = read ++ rest ∧ '\x7b' ∉ read := by
    intro afterWordChar text keyword name rest hsome
    unfold at? at hsome
    split at hsome
    · exact absurd hsome (by simp)
    · exact exists_read_of_keywordAndName? hsome
  fun_induction nextFrom? headerRule afterWordChar offset text with
  | case1 => exact absurd h (by simp)
  | case2 afterWordChar offset c tail keyword name rest hsome _ ih =>
      -- a reserved word behind the keyword is passed over, and the search goes on behind it
      obtain ⟨passed, hpassed, -⟩ := hat hsome
      obtain ⟨front, read, heq, hoffset, hread⟩ := ih h
      refine ⟨passed ++ front, read, by rw [hpassed, heq, List.append_assoc], ?_, hread⟩
      rw [hpassed, List.length_append, Nat.add_sub_cancel] at hoffset
      rw [List.length_append, ← hoffset, Nat.add_assoc]
  | case3 afterWordChar offset c tail keyword name rest hsome _ =>
      obtain ⟨read, heq, hread⟩ := hat hsome
      cases h
      exact ⟨[], read, heq, rfl, hread⟩
  | case4 afterWordChar offset c tail _ ih =>
      obtain ⟨front, read, heq, hoffset, hread⟩ := ih h
      refine ⟨c :: front, read, by rw [heq]; rfl, ?_, hread⟩
      rw [← hoffset, List.length_cons]
      omega

/-- Without a brace before the next header, every brace stands behind it. -/
theorem exists_brace_behind {first second : Header}
    (hnext : headerRule.next? first.rest = some second)
    (hbetween : '\x7b' ∉ first.rest.take second.offset) {front behind : Text}
    (hrest : first.rest = front ++ '\x7b' :: behind) :
    ∃ middle, second.rest = middle ++ '\x7b' :: behind ∧ middle <:+ front := by
  obtain ⟨lead, read, heq, hoffset, hread⟩ := exists_read_of_nextFrom? hnext
  rw [Nat.zero_add] at hoffset
  have hlead : '\x7b' ∉ lead ++ read := by
    rw [heq, ← hoffset, List.take_left] at hbetween
    exact fun hmem => (List.mem_append.mp hmem).elim hbetween hread
  rw [hrest, ← List.append_assoc] at heq
  rcases List.append_eq_append_iff.mp heq with ⟨middle, hfront, hsecond⟩ | ⟨middle, hfront, hsecond⟩
  · cases middle with
    | nil => exact ⟨[], hsecond.symm, List.nil_suffix⟩
    | cons c middle =>
        refine absurd ?_ hlead
        rw [hfront, (List.cons.inj hsecond).1]
        exact List.mem_append_right _ List.mem_cons_self
  · exact ⟨middle, hsecond, hfront ▸ List.suffix_append _ _⟩

/-- What follows the type parameters is how the rest of the header ends. -/
theorem behindOf_suffix (header : Header) : behindOf header <:+ header.rest := by
  unfold behindOf splitTypeParameters
  dsimp only
  split
  · split
    · exact (List.drop_suffix _ _).trans (List.dropWhile_suffix _)
    · exact List.suffix_rfl
  · exact List.suffix_rfl

/-- The body that begins at a brace. -/
theorem body?_of_brace {header : Header} {front behind : Text}
    (hbehind : behindOf header = front ++ '\x7b' :: behind)
    (hstart : start? header = some front.length) :
    body? header = (closing? ('\x7b' :: behind)).map fun close =>
      ((('\x7b' :: behind).take close).drop 1, behind.drop close) := by
  rw [body?_of_start hstart, hbehind, closingAt?, List.drop_left, Option.map_map]
  refine congrArg (fun f => Option.map f _) (funext fun close => ?_)
  have hbody : ((front ++ '\x7b' :: behind).take (front.length + close)).drop (front.length + 1) =
      (('\x7b' :: behind).take close).drop 1 := by
    rw [List.take_length_add_append, List.drop_length_add_append]
  have hlater :
      (front ++ '\x7b' :: behind).drop (front.length + close + 1) = behind.drop close := by
    rw [Nat.add_assoc, List.drop_length_add_append, List.drop_succ_cons]
  rw [Function.comp_apply, Nat.add_comm close, hbody, hlater]

/-- A body begins at a brace. -/
theorem exists_brace_of_body? {header : Header} {body rest : Text}
    (h : body? header = some (body, rest)) :
    ∃ front behind, header.rest = front ++ '\x7b' :: behind ∧ body <+: behind ∧
      rest.length ≤ behind.length := by
  obtain ⟨start, hstart, -⟩ := Option.bind_eq_some_iff.mp h
  obtain ⟨front, behind, heq, hlength⟩ := brace_of_bodyStartFrom? hstart
  rw [chars_pieces, List.drop_zero] at heq
  rw [Nat.zero_add] at hlength
  rw [body?_of_brace heq (hlength ▸ hstart)] at h
  obtain ⟨close, -, hfound⟩ := Option.map_eq_some_iff.mp h
  obtain ⟨rfl, rfl⟩ := Prod.mk.inj hfound
  obtain ⟨lead, hlead⟩ := behindOf_suffix header
  refine ⟨lead ++ front, behind, by rw [← hlead, heq, List.append_assoc], ?_, ?_⟩
  · cases close with
    | zero => exact List.nil_prefix
    | succ close => exact List.take_prefix _ _
  · rw [List.length_drop]
    omega

/-- Where no brace follows, a header has no body. -/
theorem body?_of_no_brace {header : Header} (h : '\x7b' ∉ header.rest) : body? header = none := by
  refine Option.eq_none_iff_forall_not_mem.mpr fun found hfound => h ?_
  obtain ⟨front, behind, hrest, -, -⟩ := exists_brace_of_body? hfound
  rw [hrest]
  exact List.mem_append_right _ List.mem_cons_self

/-- Behind signs of no account, a header takes the body that begins at the first brace. -/
theorem body?_ordinary {header : Header} {front behind : Text}
    (hrest : header.rest = front ++ '\x7b' :: behind)
    (hfront : ∀ c ∈ front, isOrdinary c = true ∧ c ≠ ';') :
    body? header = (closing? ('\x7b' :: behind)).map fun close =>
      ((('\x7b' :: behind).take close).drop 1, behind.drop close) := by
  have hangle : (stripStart header.rest).head? ≠ some '<' := by
    intro hhead
    rw [hrest] at hhead
    rcases List.mem_append.mp (mem_of_head?_stripStart (by decide) hhead) with hmem | hmem
    · exact absurd (hfront _ hmem).1 (by decide)
    · exact absurd hmem (by decide)
  have hbehind : behindOf header = front ++ '\x7b' :: behind := by
    rw [behindOf, splitTypeParameters, if_neg hangle, hrest]
  refine body?_of_brace hbehind ?_
  rw [start?, hbehind, bodyStart?_append hfront]

/-! ## Models -/

/-- The model of a single source. -/
def modelOf (source : Text) : Model := Model.ofSources .typeScript [{ text := source }]

/-- A source tells of its aliases, then of each header that is read in it. -/
theorem facts_eq (source : Text) :
    facts source = (aliasRule.all (content source)).flatMap aliasFacts ++
      (readHeaders (content source)).flatMap ownFacts := by
  rw [← declarationFacts_eq]
  rfl

theorem map_fact_findings (source : Text) :
    (Contribution.findings ⟨.typeScript, { text := source }⟩).map Finding.fact = facts source := by
  simp [Contribution.findings, Source.read, Reading.ofFacts, Function.comp_def]

/-- The members in the model are those that the facts tell. -/
theorem mem_memberKeys_modelOf {source : Text} {name : String} {key : MemberKey} :
    key ∈ (modelOf source).memberKeys name ↔ key ∈ toldKeys name (facts source) := by
  rw [← map_fact_findings]
  refine Model.mem_memberKeys_iff ?_
  rw [map_fact_findings]
  exact scoped_facts source

/-- What a fact declares is in the model. -/
theorem mem_names_modelOf {source : Text} {name : String} {kind : Kind} {word : String}
    {offset : Option Nat} (h : .declares name kind word offset ∈ facts source) :
    name ∈ (modelOf source).names := by
  rw [← map_fact_findings] at h
  obtain ⟨finding, hfinding, hfact⟩ := List.mem_map.mp h
  refine Model.mem_names_applyAll.mpr (Or.inr (List.mem_filterMap.mpr ⟨finding, hfinding, ?_⟩))
  rw [hfact]
  rfl

/-- Type parameters and bases are no members. -/
theorem memberless_leadFacts (header : Header) : ∀ fact ∈ leadFacts header, fact.Memberless := by
  refine List.forall_mem_append.mpr ⟨List.forall_mem_flatMap.mpr fun param _ => ?_, ?_⟩
  · dsimp only
    split
    · exact memberless_usesOf
    · exact fun _ hmem => absurd hmem List.not_mem_nil
  · refine List.forall_mem_append.mpr ⟨?_, ?_⟩
    all_goals
      refine List.forall_mem_flatMap.mpr fun entry _ => ?_
      refine List.forall_mem_cons.mpr ⟨?_, memberless_usesOf⟩
      rintro offer ⟨⟩
      rfl

/-- An alias tells nothing of the members of others. -/
theorem toldKeys_aliasFacts {name : String} {header : Header} (h : nameOf header ≠ name) :
    toldKeys name (aliasFacts header) = [] := by
  unfold aliasFacts
  split
  · split
    · rename_i value _ _
      show toldKeys name ((shapes (nameOf header) value).1 ++ _) = []
      refine toldKeys_of_allAbout (allAbout_append.mpr ⟨allAbout_shapes _ _, ?_⟩) h
      exact allAbout_flatMap.mpr fun _ _ => allAbout_usesOf (nameOf header) _
    · rfl
  · rfl

/-- A body tells of its header's type only. -/
theorem allAbout_ownBodyFacts (header : Header) :
    AllAbout (nameOf header) (ownBodyFacts header) := by
  unfold ownBodyFacts
  split
  · exact allAbout_bodyFacts _ _ _
  · split
    · exact allAbout_cons.mpr ⟨trivial, allAbout_nil⟩
    · exact allAbout_nil

/-- A header tells members of its own entity alone, and none without a body. -/
theorem toldKeys_ownFacts {name : String} {header : Header}
    (h : nameOf header ≠ name ∨ body? header = none) : toldKeys name (ownFacts header) = [] := by
  have hlead : toldKeys name (leadFacts header) = [] :=
    toldKeys_of_memberless (memberless_leadFacts header)
  have hbody : toldKeys name (ownBodyFacts header) = [] := by
    rcases h with hname | hnone
    · exact toldKeys_of_allAbout (allAbout_ownBodyFacts header) hname
    · rw [ownBodyFacts, hnone]
      dsimp only
      split <;> rfl
  show toldKeys name (leadFacts header ++ ownBodyFacts header) = []
  rw [toldKeys_append, hlead, hbody, List.append_nil]

/-- Whether a declaration keeps its body behind another one: its entity is there and has the members
of the body, and the other entity, if it is declared but once, has no members. -/
structure KeepsBody (source : Text) (first second : Header) : Prop where
  declared : nameOf second ∈ (modelOf source).names
  members : ∀ body rest, body? second = some (body, rest) →
    toldKeys (nameOf second) (bodyFacts second.keyword (nameOf second) body) ⊆
      (modelOf source).memberKeys (nameOf second)
  apart : (∀ header ∈ aliasRule.all (content source), nameOf header ≠ nameOf first) →
    (∀ header ∈ readHeaders (content source), nameOf header = nameOf first → header = first) →
      (modelOf source).memberKeys (nameOf first) = []

/-- What a header tells is told by the source. -/
theorem mem_facts_of_ownFacts {source : Text} {header : Header}
    (h : header ∈ readHeaders (content source)) : ownFacts header ⊆ facts source := by
  intro fact hfact
  rw [facts_eq]
  exact List.mem_append_right _ (List.mem_flatMap.mpr ⟨header, h, hfact⟩)

/-- A header at which reading arrives gives its entity the members of the body that it takes. -/
theorem subset_memberKeys_of_body? {source : Text} {header : Header}
    (hread : header ∈ readHeaders (content source)) {body rest : Text}
    (hbody : body? header = some (body, rest)) :
    toldKeys (nameOf header) (bodyFacts header.keyword (nameOf header) body) ⊆
      (modelOf source).memberKeys (nameOf header) := by
  intro key hkey
  obtain ⟨fact, hfact, htold⟩ := mem_toldKeys.mp hkey
  have hown : fact ∈ ownBodyFacts header := by
    rw [ownBodyFacts, hbody]
    exact hfact
  have hmem : fact ∈ facts source := mem_facts_of_ownFacts hread
    (List.mem_cons_of_mem _ (List.mem_append_right _ hown))
  exact mem_memberKeys_modelOf.mpr (mem_toldKeys.mpr ⟨fact, hmem, htold⟩)

/-- An entity that one header alone declares has no members if that header takes no body. -/
theorem memberKeys_of_unshared {source : Text} {header : Header} (hbody : body? header = none)
    (haliases : ∀ other ∈ aliasRule.all (content source), nameOf other ≠ nameOf header)
    (hothers : ∀ other ∈ readHeaders (content source),
      nameOf other = nameOf header → other = header) :
    (modelOf source).memberKeys (nameOf header) = [] := by
  have htold : toldKeys (nameOf header) (facts source) = [] := by
    rw [facts_eq, toldKeys_append, toldKeys_flatMap, toldKeys_flatMap, List.append_eq_nil_iff,
      List.flatMap_eq_nil_iff, List.flatMap_eq_nil_iff]
    refine ⟨fun other hother => toldKeys_aliasFacts (haliases other hother), fun other hother => ?_⟩
    by_cases hname : nameOf other = nameOf header
    · exact toldKeys_ownFacts (Or.inr (hothers other hother hname ▸ hbody))
    · exact toldKeys_ownFacts (Or.inl hname)
  refine List.eq_nil_iff_forall_not_mem.mpr fun key hkey => ?_
  rw [mem_memberKeys_modelOf, htold] at hkey
  exact absurd hkey List.not_mem_nil

/-! ## A header behind another -/

section Following

variable {text : Text} {first second : Header} (hnext : headerRule.next? first.rest = some second)
  (hbetween : '\x7b' ∉ first.rest.take second.offset)
include hnext hbetween

/-- A body that is taken stands behind the next header, and reading goes on behind it. -/
theorem body_behind_of_body? {body rest : Text} (h : body? first = some (body, rest)) :
    ('\x7b' :: body) <:+: second.rest ∧ rest.length < second.rest.length := by
  obtain ⟨front, behind, hrest, hbody, hlength⟩ := exists_brace_of_body? h
  obtain ⟨middle, hsecond, -⟩ := exists_brace_behind hnext hbetween hrest
  rw [hsecond]
  constructor
  · exact ((List.prefix_cons_inj _).mpr hbody).isInfix.trans (List.suffix_append _ _).isInfix
  · rw [List.length_append, List.length_cons]
    omega

/-- Reading arrives at the next header exactly if no body is taken before it. -/
theorem mem_readHeaders_iff (hfirst : first ∈ readHeaders text) :
    second ∈ readHeaders text ↔ body? first = none := by
  obtain ⟨earlier, heq, hearlier⟩ := exists_readHeaders hfirst
  have hshorter := length_rest_lt_of_next? hnext
  rw [heq]
  constructor
  · intro hmem
    cases hbody : body? first with
    | none => rfl
    | some found =>
        -- less is left behind the body than behind the second header, so that this was passed over
        obtain ⟨body, rest⟩ := found
        have hbehind := (body_behind_of_body? hnext hbetween hbody).2
        rw [resume_of_some hbody] at hmem
        rcases List.mem_append.mp hmem with hmem | hmem
        · have := hearlier second hmem
          omega
        · rcases List.mem_cons.mp hmem with rfl | hmem
          · omega
          · have := length_rest_lt_of_mem_readHeaders hmem
            omega
  · intro hnone
    rw [resume_of_none hnone, readHeaders_of_some hnext]
    exact List.mem_append_right _ (List.mem_cons_of_mem _ List.mem_cons_self)

/-- With nothing but signs of no account before the first brace, both headers take the same body. -/
theorem body?_eq_of_ordinary
    (h : ∀ c ∈ first.rest.takeWhile (· != '\x7b'), isOrdinary c = true ∧ c ≠ ';') :
    body? first = body? second := by
  by_cases hbrace : '\x7b' ∈ first.rest
  · obtain ⟨front, behind, hrest, hfront⟩ := List.eq_append_cons_of_mem hbrace
    have hsigns : first.rest.takeWhile (· != '\x7b') = front :=
      hrest ▸ upTo_append_mark hfront behind
    rw [hsigns] at h
    obtain ⟨middle, hsecond, hmiddle⟩ := exists_brace_behind hnext hbetween hrest
    rw [body?_ordinary hrest h, body?_ordinary hsecond fun c hc => h c (hmiddle.subset hc)]
  · obtain ⟨lead, read, heq, -, -⟩ := exists_read_of_nextFrom? hnext
    have hlater : '\x7b' ∉ second.rest := fun hmem =>
      hbrace (heq ▸ List.mem_append_right _ (List.mem_append_right _ hmem))
    rw [body?_of_no_brace hbrace, body?_of_no_brace hlater]

end Following

/-- Which body is taken when another header follows without a brace between the two. -/
theorem keepsBody_following {source : Text} {first second : Header}
    (hfirst : first ∈ readHeaders (content source))
    (hnext : headerRule.next? first.rest = some second)
    (hbetween : '\x7b' ∉ first.rest.take second.offset) :
    (second ∈ readHeaders (content source) ↔ body? first = none) ∧
      (body? first = none → KeepsBody source first second) ∧
      (∀ body rest, body? first = some (body, rest) →
        ('\x7b' :: body) <:+: second.rest ∧
          toldKeys (nameOf first) (bodyFacts first.keyword (nameOf first) body) ⊆
            (modelOf source).memberKeys (nameOf first)) ∧
      ((∀ c ∈ first.rest.takeWhile (· != '\x7b'), isOrdinary c = true ∧ c ≠ ';') →
        body? first = body? second) := by
  have hread := mem_readHeaders_iff hnext hbetween hfirst
  refine ⟨hread, fun hnone => ?_, fun body rest hbody => ?_, body?_eq_of_ordinary hnext hbetween⟩
  · have hsecond := hread.mpr hnone
    exact {
      declared := mem_names_modelOf (mem_facts_of_ownFacts hsecond List.mem_cons_self)
      members := fun body rest hbody => subset_memberKeys_of_body? hsecond hbody
      apart := memberKeys_of_unshared hnone }
  · exact ⟨(body_behind_of_body? hnext hbetween hbody).1, subset_memberKeys_of_body? hfirst hbody⟩

/-- A class whose parameters are never closed. -/
def openShed : Header :=
  ⟨"class", "Shed".toList, 0, " (\nclass Hall \x7b width: number; \x7d".toList⟩

/-- The class behind it. -/
def openHall : Header := ⟨"class", "Hall".toList, 3, " \x7b width: number; \x7d".toList⟩

theorem keepsBody_openHall :
    openShed ∈ readHeaders (content ("class Shed".toList ++ openShed.rest)) ∧
      body? openHall = some (" width: number; ".toList, []) ∧
      KeepsBody ("class Shed".toList ++ openShed.rest) openShed openHall := by
  have hread : openShed ∈ readHeaders (content ("class Shed".toList ++ openShed.rest)) := by
    decide +kernel
  exact ⟨hread, by decide +kernel,
    (keepsBody_following hread (by decide +kernel) (by decide +kernel)).2.1 (by decide +kernel)⟩

/-- A class without a body. -/
def bareShed : Header :=
  ⟨"class", "Shed".toList, 0, "\nclass Hall \x7b width: number; \x7d".toList⟩

/-- The class behind it, with a body. -/
def bareHall : Header := ⟨"class", "Hall".toList, 1, " \x7b width: number; \x7d".toList⟩

/-- A class without a body takes the body of the next one, and that is not declared at all. -/
theorem not_keepsBody_bareHall :
    bareShed ∈ readHeaders (content ("class Shed".toList ++ bareShed.rest)) ∧
      headerRule.next? bareShed.rest = some bareHall ∧
      (∀ c ∈ bareShed.rest.take bareHall.offset, c ≠ '\x7b' ∧ c ≠ ';') ∧
      body? bareHall = some (" width: number; ".toList, []) ∧
      (modelOf ("class Shed".toList ++ bareShed.rest)).memberKeys "Shed" = [.field "width"] ∧
      ¬ KeepsBody ("class Shed".toList ++ bareShed.rest) bareShed bareHall := by
  have hnames : nameOf bareHall ∉ (modelOf ("class Shed".toList ++ bareShed.rest)).names := by
    decide +kernel
  exact ⟨by decide +kernel, by decide +kernel, forall_chars (by decide +kernel), by decide +kernel,
    by decide +kernel, fun h => hnames h.declared⟩

end TypeScript

end ClassDiagram
