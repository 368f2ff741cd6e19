import ClassDiagram.Proofs.Loading.Contribute
import ClassDiagram.Proofs.Loading.Visit
import ClassDiagram.Proofs.Reading.JavaFault

/-!
# Containment of failures

A file fails if it cannot be opened, if its bytes are no text, or if it is to be read from a syntax
tree and there is none, or one with an error. All of this is known before the file tells anything, so
that a failed file leaves no trace in the model.

* `SourceFile.failure?`: why a file fails, said without reading it.
* `Source.readAll_of_parsed`: a reading faults for these reasons only, and has told nothing by then.
* `Session.Loads`: what a session has become after some visits. One file keeps to it
  (`Session.loads_loadFile`), and so does a whole run (`Session.loads_foldl`).
* `Session.loadTree_contained`: the run over a directory, and the run without the files that failed.
-/

namespace ClassDiagram

/-- No two languages accept the same files. -/
theorem Language.eq_of_accepts {first second : Language} {suffix : String}
    (hfirst : first.accepts suffix = true) (hsecond : second.accepts suffix = true) :
    first = second := by
  unfold accepts at hfirst hsecond
  cases first <;> cases second <;> simp [suffixes] at hfirst hsecond ⊢ <;> grind

/-- The fault of a syntax tree: it is missing, or it has an error. -/
def Node.faultOf? : Option Node → Option Fault
  | none => some .grammarMissing
  | some root => root.errorLine?.map .syntaxError

namespace SourceFile

/-- Why a file fails that some languages accept. -/
def failure? (content : SourceFile) (path : String) (languages : List Language) : Option String :=
  if languages.isEmpty then none
  else
    match content.fault with
    | some fault => some (fault.message path)
    | none =>
      match Utf8.decode content.bytes with
      | .error error => some error.message
      | .ok _ => if .java ∈ languages then (Node.faultOf? content.tree).map Fault.message else none

/-- Whether the syntax tree of a file fits its text, where the file has a text. -/
def Parsed (content : SourceFile) : Prop :=
  content.fault = none → ∀ source ∈ (Session.sourceOf content).toOption,
    ∀ root ∈ source.tree, root.AllFit source.text

instance (content : SourceFile) : Decidable content.Parsed :=
  inferInstanceAs (Decidable (content.fault = none →
    ∀ source ∈ (Session.sourceOf content).toOption, ∀ root ∈ source.tree, root.AllFit source.text))

/-- What a file tells in some languages. -/
def told (content : SourceFile) (languages : List Language) : List Finding :=
  match Session.sourceOf content with
  | .ok source => (source.readAll languages).findings
  | .error _ => []

section Failure

variable {content : SourceFile} {path : String} {languages : List Language}

/-- A file that cannot be opened fails with its fault's message. -/
theorem failure?_of_fault (h : languages.isEmpty = false) {fault : PathFault}
    (hfault : content.fault = some fault) :
    content.failure? path languages = some (fault.message path) := by
  simp only [failure?, h, hfault]
  rfl

/-- A file whose bytes are no text fails with the decoder's message. -/
theorem failure?_of_undecodable (h : languages.isEmpty = false) (hfault : content.fault = none)
    {error : Utf8.DecodeError} (hsource : Session.sourceOf content = .error error) :
    content.failure? path languages = some error.message := by
  unfold Session.sourceOf at hsource
  cases hdecode : Utf8.decode content.bytes with
  | ok text => simp [hdecode, Except.map] at hsource
  | error other =>
      rw [hdecode] at hsource
      cases hsource
      simp only [failure?, h, hfault, hdecode]
      rfl

/-- A file that is decoded fails if its syntax tree does. -/
theorem failure?_of_source (h : languages.isEmpty = false) (hfault : content.fault = none)
    {source : Source} (hsource : Session.sourceOf content = .ok source) :
    content.failure? path languages =
      (if .java ∈ languages then Node.faultOf? source.tree else none).map Fault.message := by
  unfold Session.sourceOf at hsource
  cases hdecode : Utf8.decode content.bytes with
  | error error => simp [hdecode, Except.map] at hsource
  | ok text =>
      rw [hdecode] at hsource
      cases hsource
      simp only [failure?, h, hfault, hdecode, apply_ite (Option.map Fault.message)]
      rfl

end Failure

end SourceFile

namespace Source

variable {source : Source} {languages : List Language}

/-- Reading stops at the first language with a fault. -/
theorem readAll_of_fault {language : Language} {fault : Fault} (rest : List Language)
    (h : (source.read language).fault = some fault) :
    source.readAll (language :: rest) =
      { findings := (source.read language).findings, fault := some fault } := by
  rw [readAll]
  simp only [h]

/-- If no language has a fault, reading has none. -/
theorem fault_readAll_of_none (h : ∀ language ∈ languages, (source.read language).fault = none) :
    (source.readAll languages).fault = none := by
  induction languages with
  | nil => rfl
  | cons language rest ih =>
      obtain ⟨hfirst, hrest⟩ := List.forall_mem_cons.mp h
      rw [readAll]
      simp only [hfirst]
      exact ih hrest

/-- Only a syntax tree can be at fault. -/
theorem fault_read_of_ne_java {language : Language} (h : language ≠ .java) :
    (source.read language).fault = none := by
  cases language with
  | java => exact absurd rfl h
  | _ => rfl

/-- Java is read from the tree to the end, or the tree has a fault and nothing is told. -/
theorem read_java (h : ∀ root ∈ source.tree, root.AllFit source.text) :
    (source.read .java).fault = Node.faultOf? source.tree ∧
      ((Node.faultOf? source.tree).isSome = true → (source.read .java).findings = []) := by
  unfold read
  cases htree : source.tree with
  | none => exact ⟨rfl, fun _ => rfl⟩
  | some root =>
      obtain ⟨hfault, hfindings⟩ := Java.read_of_allFit (h root htree)
      refine ⟨hfault, fun hsome => hfindings ?_⟩
      rwa [Node.faultOf?, Option.isSome_map] at hsome

/-- In the languages that accept a file, the reading of a source ends with the fault of its tree if
one of them is Java, and else without a fault. With a fault, it tells nothing. -/
theorem readAll_of_parsed {suffix : String} (haccept : ∀ language ∈ languages, language.accepts suffix)
    (hfit : .java ∈ languages → ∀ root ∈ source.tree, root.AllFit source.text) :
    (source.readAll languages).fault =
        (if .java ∈ languages then Node.faultOf? source.tree else none) ∧
      ((source.readAll languages).fault.isSome = true → (source.readAll languages).findings = []) := by
  by_cases hjava : .java ∈ languages
  · rw [if_pos hjava]
    obtain ⟨hfault, hfindings⟩ := read_java (hfit hjava)
    have hall : ∀ language ∈ languages, language = .java := fun language hlanguage =>
      Language.eq_of_accepts (haccept language hlanguage) (haccept .java hjava)
    cases htree : Node.faultOf? source.tree with
    | none =>
        have hnone : (source.readAll languages).fault = none := by
          refine fault_readAll_of_none fun language hlanguage => ?_
          rw [hall language hlanguage, hfault, htree]
        exact ⟨hnone, by simp [hnone]⟩
    | some fault =>
        -- the first of the languages faults already
        cases languages with
        | nil => exact absurd hjava List.not_mem_nil
        | cons first rest =>
            obtain rfl := hall first List.mem_cons_self
            rw [readAll_of_fault rest (hfault.trans htree)]
            exact ⟨rfl, fun _ => hfindings (by rw [htree]; rfl)⟩
  · have hnone : (source.readAll languages).fault = none := by
      refine fault_readAll_of_none fun language hlanguage => fault_read_of_ne_java ?_
      rintro rfl
      exact hjava hlanguage
    rw [if_neg hjava]
    exact ⟨hnone, by simp [hnone]⟩

end Source

namespace Session

/-- Whether some language accepts a visited file. -/
def accepts (session : Session) (visit : String × SourceFile) : Bool :=
  !(session.languagesFor visit.1).isEmpty

/-- The failure of a visited file, with its path. -/
def failureOf? (session : Session) (visit : String × SourceFile) : Option (String × String) :=
  (visit.2.failure? visit.1 (session.languagesFor visit.1)).map fun message => (visit.1, message)

/-- Whether a visited file is read. -/
def reads (session : Session) (visit : String × SourceFile) : Bool :=
  session.accepts visit && (session.failureOf? visit).isNone

/-- What a visited file tells. -/
def toldBy (session : Session) (visit : String × SourceFile) : List Finding :=
  visit.2.told (session.languagesFor visit.1)

/-- What comes of a session by some visits: the files that fail are listed in the order of the
visits, and the model takes in what the others tell, in the same order. -/
structure Loads (before : Session) (visits : List (String × SourceFile)) (after : Session) :
    Prop where
  languages : after.languages = before.languages
  failures : after.failures = before.failures ++ visits.filterMap before.failureOf?
  filesRead : after.filesRead = before.filesRead + visits.countP before.reads
  model : after.model = before.model.applyAll ((visits.filter before.reads).flatMap before.toldBy)

/-! ## One visit -/

section Step

variable {session after : Session} {visit : String × SourceFile}

/-- Only a file that is accepted can fail. -/
theorem accepts_of_failureOf? {failure : String × String}
    (h : session.failureOf? visit = some failure) : session.accepts visit = true := by
  unfold accepts
  cases hlanguages : session.languagesFor visit.1 with
  | nil => simp [failureOf?, SourceFile.failure?, hlanguages] at h
  | cons _ _ => rfl

/-- A file of no language changes nothing. -/
theorem Loads.of_refused (h : session.accepts visit = false) : session.Loads [visit] session := by
  have hnone : session.failureOf? visit = none := by
    cases hfailure : session.failureOf? visit with
    | none => rfl
    | some failure => exact absurd (accepts_of_failureOf? hfailure) (by simp [h])
  have hreads : session.reads visit = false := by simp [reads, h]
  exact ⟨rfl, by simp [hnone], by simp [hreads], by simp [hreads, Model.applyAll]⟩

/-- A file that fails is noted and changes nothing else. -/
theorem Loads.of_failed {failure : String × String} (h : session.failureOf? visit = some failure)
    (hlanguages : after.languages = session.languages)
    (hfailures : after.failures = session.failures ++ [failure])
    (hread : after.filesRead = session.filesRead) (hmodel : after.model = session.model) :
    session.Loads [visit] after := by
  have hreads : session.reads visit = false := by simp [reads, h]
  exact ⟨hlanguages, by simp [hfailures, h], by simp [hreads, hread],
    by simp [hreads, hmodel, Model.applyAll]⟩

/-- A file that is read counts, and tells the model what it holds. -/
theorem Loads.of_read (h : session.reads visit = true)
    (hlanguages : after.languages = session.languages)
    (hfailures : after.failures = session.failures)
    (hread : after.filesRead = session.filesRead + 1)
    (hmodel : after.model = session.model.applyAll (session.toldBy visit)) :
    session.Loads [visit] after := by
  have hnone : session.failureOf? visit = none := by
    simpa using (Bool.and_eq_true_iff.mp h).2
  exact ⟨hlanguages, by simp [hfailures, hnone], by simp [h, hread], by simp [h, hmodel]⟩

/-- A file with a text fails exactly by the fault of its reading, which has told nothing then. -/
theorem failureOf?_of_source {path : String} {content : SourceFile} {source : Source}
    (hlanguages : (session.languagesFor path).isEmpty = false) (hfault : content.fault = none)
    (hsource : sourceOf content = .ok source)
    (hparsed : Language.java.accepts (Path.suffix path) = true → content.Parsed) :
    let reading := source.readAll (session.languagesFor path)
    session.failureOf? (path, content) = reading.fault.map (fun fault => (path, fault.message)) ∧
      (reading.fault.isSome = true → reading.findings = []) := by
  have haccept : ∀ language ∈ session.languagesFor path,
      language.accepts (Path.suffix path) = true := fun language hlanguage =>
    (List.mem_filter.mp hlanguage).2
  obtain ⟨hfaults, hnothing⟩ := source.readAll_of_parsed haccept fun hjava =>
    hparsed (haccept .java hjava) hfault source (by rw [hsource]; rfl)
  refine ⟨?_, hnothing⟩
  rw [hfaults, failureOf?, SourceFile.failure?_of_source hlanguages hfault hsource, Option.map_map]
  rfl

/-- A file is refused, or fails and leaves the model as it is, or is read. -/
theorem loads_loadFile (session : Session) (visit : String × SourceFile)
    (hparsed : Language.java.accepts (Path.suffix visit.1) = true → visit.2.Parsed) :
    session.Loads [visit] (session.loadFile visit.1 visit.2.opened).1 := by
  obtain ⟨path, content⟩ := visit
  unfold loadFile
  split
  · rename_i hnone
    exact .of_refused (by simp [accepts, hnone])
  · rename_i hsome
    have hlanguages : (session.languagesFor path).isEmpty = false := by
      simpa using fun hnil => hsome hnil
    unfold SourceFile.opened
    cases hfault : content.fault with
    | some fault =>
        have hfailure : session.failureOf? (path, content) = some (path, fault.message path) := by
          simp [failureOf?, SourceFile.failure?_of_fault hlanguages hfault]
        exact .of_failed hfailure rfl rfl rfl rfl
    | none =>
        cases hsource : sourceOf content with
        | error error =>
            have hfailure : session.failureOf? (path, content) = some (path, error.message) := by
              simp [failureOf?, SourceFile.failure?_of_undecodable hlanguages hfault hsource]
            simp only [hsource]
            exact .of_failed hfailure rfl rfl rfl rfl
        | ok source =>
            obtain ⟨hfailure, hnothing⟩ := failureOf?_of_source hlanguages hfault hsource hparsed
            simp only [hsource, readAll_eq]
            -- a tree with a fault has told nothing before it, so that the model stays
            cases hend : (source.readAll (session.languagesFor path)).fault with
            | some fault =>
                rw [hend] at hfailure hnothing
                refine .of_failed hfailure rfl rfl rfl ?_
                show session.model.applyAll _ = session.model
                rw [hnothing rfl]
                rfl
            | none =>
                rw [hend] at hfailure
                refine .of_read (by simp [reads, accepts, hfailure, hlanguages]) rfl rfl rfl ?_
                show session.model.applyAll _ = session.model.applyAll _
                rw [toldBy, SourceFile.told, hsource]

end Step

/-! ## Runs -/

section Run

variable {before middle after : Session} {visits more : List (String × SourceFile)}

/-- Visits are loaded one after the other. -/
theorem Loads.append (h : before.Loads visits middle) (hmore : middle.Loads more after) :
    before.Loads (visits ++ more) after := by
  have hlanguages : middle.languagesFor = before.languagesFor := by
    funext path
    rw [languagesFor, languagesFor, h.languages]
  have hfailure : middle.failureOf? = before.failureOf? := by
    funext visit
    rw [failureOf?, failureOf?, hlanguages]
  have hreads : middle.reads = before.reads := by
    funext visit
    rw [reads, reads, accepts, accepts, hlanguages, hfailure]
  have htold : middle.toldBy = before.toldBy := by
    funext visit
    rw [toldBy, toldBy, hlanguages]
  refine ⟨hmore.languages.trans h.languages, ?_, ?_, ?_⟩
  · rw [hmore.failures, h.failures, hfailure, List.filterMap_append, List.append_assoc]
  · rw [hmore.filesRead, h.filesRead, hreads, List.countP_append, Nat.add_assoc]
  · rw [hmore.model, h.model, hreads, htold, List.filter_append, List.flatMap_append,
      Model.applyAll_append]

/-- A run over some visits takes in what each of them does. -/
theorem loads_foldl (session : Session) (hparsed : ∀ visit ∈ visits,
      Language.java.accepts (Path.suffix visit.1) = true → visit.2.Parsed) :
    session.Loads visits (visits.foldl
      (fun session visit => (session.loadFile visit.1 visit.2.opened).1) session) := by
  induction visits generalizing session with
  | nil => exact ⟨rfl, by simp, rfl, rfl⟩
  | cons visit rest ih =>
      obtain ⟨hfirst, hrest⟩ := List.forall_mem_cons.mp hparsed
      exact (session.loads_loadFile visit hfirst).append (ih _ hrest)

/-- Loading a directory loads each of its visits. -/
theorem loads_loadTree (session : Session) (root : String) (directory : Entry)
    (hparsed : ∀ visit ∈ session.visits root (some directory),
      Language.java.accepts (Path.suffix visit.1) = true → visit.2.Parsed) :
    session.Loads (session.visits root (some directory))
      (session.loadTree root (some directory)) := by
  have hrun := session.loads_foldl hparsed
  -- the record at the end touches nothing of this
  exact ⟨hrun.languages, hrun.failures, hrun.filesRead, hrun.model⟩

/-- The accepted files are those that are read and those that fail. -/
theorem countP_accepts (session : Session) (visits : List (String × SourceFile)) :
    visits.countP session.accepts =
      visits.countP session.reads + (visits.filterMap session.failureOf?).length := by
  induction visits with
  | nil => rfl
  | cons visit rest ih =>
      rw [List.countP_cons, List.countP_cons, List.filterMap_cons, ih]
      cases hfailure : session.failureOf? visit with
      | some failure =>
          have haccepts := accepts_of_failureOf? hfailure
          have hreads : session.reads visit = false := by simp [reads, hfailure]
          simp only [haccepts, hreads, List.length_cons]
          simp only [if_true, Bool.false_eq_true, if_false]
          omega
      | none =>
          have hreads : session.reads visit = session.accepts visit := by simp [reads, hfailure]
          simp only [hreads]
          omega

/-- Where no path is visited twice, the paths of the failures tell which files failed. -/
theorem contains_failed {session : Session} (hdistinct : (visits.map Prod.fst).Nodup)
    {visit : String × SourceFile} (hvisit : visit ∈ visits) :
    ((visits.filterMap session.failureOf?).map Prod.fst).contains visit.1 =
      (session.failureOf? visit).isSome := by
  rw [Bool.eq_iff_iff, List.contains_iff_mem, List.mem_map]
  constructor
  · rintro ⟨failure, hfailure, hpath⟩
    obtain ⟨other, hother, heq⟩ := List.mem_filterMap.mp hfailure
    obtain ⟨message, _, rfl⟩ := Option.map_eq_some_iff.mp heq
    have hsame : other = visit := List.inj_on_of_nodup_map hdistinct hother hvisit hpath
    rw [← hsame, heq]
    rfl
  · intro hsome
    obtain ⟨failure, hfailure⟩ := Option.isSome_iff_exists.mp hsome
    obtain ⟨message, _, rfl⟩ := Option.map_eq_some_iff.mp hfailure
    exact ⟨_, List.mem_filterMap.mpr ⟨visit, hvisit, hfailure⟩, rfl⟩

theorem visits_some (session : Session) (root : String) (directory : Entry) :
    session.visits root (some directory) = Entry.visits session.ignored root directory := rfl

/-- A proper tree without the files that failed is visited like the whole tree, but for those. -/
theorem visits_without_failed (session : Session) (root : String) {name : String}
    {entries : List Entry} (hproper : (Entry.directory name entries).Proper) :
    let visits := session.visits root (some (.directory name entries))
    let failed := visits.filterMap session.failureOf?
    session.visits root (some ((Entry.directory name entries).without (failed.map Prod.fst) root)) =
      visits.filter fun visit => (session.failureOf? visit).isNone := by
  simp only [visits_some, Entry.visits_without]
  refine List.filter_congr fun visit hvisit => ?_
  rw [contains_failed (Entry.nodup_visits hproper) hvisit, Option.not_isSome]

/-- Without the visits that fail, a session reads and takes in the same. -/
theorem Loads.without_failed (h : before.Loads visits after)
    (hkept : before.Loads (visits.filter fun visit => (before.failureOf? visit).isNone) middle) :
    middle.model = after.model ∧ middle.filesRead = after.filesRead ∧
      middle.failures = before.failures := by
  have hreads : (visits.filter fun visit => (before.failureOf? visit).isNone).filter before.reads =
      visits.filter before.reads := by
    rw [List.filter_filter]
    refine List.filter_congr fun visit _ => ?_
    rw [reads, Bool.and_assoc, Bool.and_self]
  have hnone : (visits.filter fun visit => (before.failureOf? visit).isNone).filterMap
      before.failureOf? = [] :=
    List.filterMap_eq_nil_iff.mpr fun visit hvisit => by
      simpa using (List.mem_filter.mp hvisit).2
  refine ⟨?_, ?_, ?_⟩
  · rw [hkept.model, h.model, hreads]
  · rw [hkept.filesRead, h.filesRead, List.countP_eq_length_filter, hreads,
      List.countP_eq_length_filter]
  · rw [hkept.failures, hnone, List.append_nil]

end Run

/-- Loading a proper tree whose syntax trees fit their texts: exactly the files below no ignored
directory are visited, each once, those of a directory in ascending order before its directories in
ascending order. The files that fail are listed in the order of the visits, and with those that are
read they make up the accepted ones. The model takes in what the files that are read tell, and
without the failed files the session comes to the same model and the same count. -/
theorem loadTree_contained (session : Session) (root name : String) (entries : List Entry)
    (hproper : (Entry.directory name entries).Proper)
    (hparsed : ∀ visit ∈ session.visits root (some (.directory name entries)),
      Language.java.accepts (Path.suffix visit.1) = true → visit.2.Parsed) :
    let directory := Entry.directory name entries
    let visits := session.visits root (some directory)
    let failed := visits.filterMap session.failureOf?
    let after := session.loadTree root (some directory)
    let kept := session.loadTree root (some (directory.without (failed.map Prod.fst) root))
    (∀ path content, (path, content) ∈ visits ↔
        Entry.Reaches session.ignored root entries path content) ∧
      (visits.map Prod.fst).Nodup ∧
      (∀ path folder inner, Entry.InOrder session.ignored path inner
        (Entry.visits session.ignored path (.directory folder inner))) ∧
      after.failures = session.failures ++ failed ∧
      after.filesRead + failed.length = session.filesRead + visits.countP session.accepts ∧
      after.model = session.model.applyAll ((visits.filter session.reads).flatMap session.toldBy) ∧
      kept.model = after.model ∧ kept.filesRead = after.filesRead ∧
      kept.failures = session.failures := by
  extract_lets directory visits failed after kept
  have hafter : session.Loads visits after := session.loads_loadTree root directory hparsed
  have hvisits : session.visits root (some (directory.without (failed.map Prod.fst) root)) =
      visits.filter fun visit => (session.failureOf? visit).isNone :=
    session.visits_without_failed root hproper
  -- without the files that failed, the visits are those that did not fail
  have hkept := session.loads_loadTree root (directory.without (failed.map Prod.fst) root) (by
    rw [hvisits]
    exact fun visit hvisit => hparsed visit (List.mem_filter.mp hvisit).1)
  rw [hvisits] at hkept
  refine ⟨fun path content => ?_, Entry.nodup_visits hproper,
    fun path folder inner => Entry.inOrder_visits _ path folder inner, hafter.failures, ?_,
    hafter.model, hafter.without_failed hkept⟩
  · show (path, content) ∈ Entry.visits session.ignored root (.directory name entries) ↔ _
    exact Entry.mem_visits_iff
  · rw [hafter.filesRead, countP_accepts, Nat.add_assoc]

/-- A file that is read, one that does not open, one that is no text, one without a syntax tree and
one that no language accepts; a directory with a syntax tree that is read and one with an error; and
a directory that may be ignored. -/
def depot : List Entry :=
  let leaf (type : String) (start stop : Nat) (role : Option String) : Node :=
    .mk { type := type, start := start, stop := stop, role := role } []
  let crate : Node := .mk { type := "program", start := 0, stop := 14 } [
    .mk { type := "class_declaration", start := 0, stop := 14 } [
      leaf "identifier" 6 11 (some "name"), leaf "class_body" 12 14 (some "body")]]
  let broken : Node := .mk { type := "program", start := 0, stop := 5, hasError := true } []
  [ .directory "parts" [
      .file "Hook.java" { bytes := Utf8.encode "class".toList, tree := some broken },
      .file "Crate.java" { bytes := Utf8.encode "class Crate \x7b\x7d".toList, tree := some crate }],
    .file "winch.py" { bytes := Utf8.encode "class Winch:\n    rope: str\n".toList },
    .directory "made" [.file "copy.py" { bytes := Utf8.encode "class Copy:\n    pass\n".toList }],
    .file "notes.txt" { bytes := [] },
    .file "Ramp.java" { bytes := Utf8.encode "class Ramp \x7b\x7d".toList },
    .file "torn.py" { bytes := [0xff] },
    .file "locked.py" { bytes := [], fault := some .denied }]

/-- A session that reads Java and Python, but nothing that is made. -/
def keeper : Session := { languages := [.java, .python], ignored := ["made"] }

/-- Of six accepted files four fail, each for a reason of its own, and the two others make up the
model whether the four are there or not. -/
theorem depot_contained :
    let whole := Entry.directory "depot" depot
    let after := keeper.loadTree "depot" (some whole)
    let failed := ["depot/Ramp.java", "depot/locked.py", "depot/torn.py", "depot/parts/Hook.java"]
    let kept := keeper.loadTree "depot" (some (whole.without failed "depot"))
    whole.Proper ∧
      (∀ visit ∈ keeper.visits "depot" (some whole),
        Language.java.accepts (Path.suffix visit.1) = true → visit.2.Parsed) ∧
      (keeper.visits "depot" (some whole)).map Prod.fst = ["depot/Ramp.java", "depot/locked.py",
        "depot/notes.txt", "depot/torn.py", "depot/winch.py", "depot/parts/Crate.java",
        "depot/parts/Hook.java"] ∧
      after.failures.map Prod.fst = failed ∧ after.filesRead = 2 ∧
      after.model.names = ["Winch", "Crate"] ∧
      kept.model = after.model ∧ kept.filesRead = 2 ∧ kept.failures = [] := by
  extract_lets whole after failed kept
  have hproper : whole.Proper := by decide +kernel
  have hparsed : ∀ visit ∈ keeper.visits "depot" (some whole),
      Language.java.accepts (Path.suffix visit.1) = true → visit.2.Parsed := by decide +kernel
  have hpaths : ((keeper.visits "depot" (some whole)).filterMap keeper.failureOf?).map Prod.fst =
      failed := by decide +kernel
  have hread : after.filesRead = 2 := by decide +kernel
  obtain ⟨-, -, -, hfailures, -, -, hmodel, hsame, hnone⟩ :=
    loadTree_contained keeper "depot" "depot" depot hproper hparsed
  rw [hpaths] at hmodel hsame hnone
  refine ⟨hproper, hparsed, by decide +kernel, ?_, hread, by decide +kernel, hmodel,
    hsame.trans hread, hnone⟩
  rw [hfailures]
  exact hpaths

end Session

end ClassDiagram
