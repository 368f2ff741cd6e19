import ClassDiagram.Loading.FileTree
import ClassDiagram.Loading.Record
import ClassDiagram.Loading.Source
import ClassDiagram.Text.Line

/-!
# Loading sessions

A session grows a model file by file. What goes wrong in one file is recorded as the failure of
that file, and the session goes on with the next.

* A file is read by every language that accepts its suffix.
* A directory is loaded in the order of its visit.
-/

namespace ClassDiagram

/-- The state of a run. -/
structure Session where
  /-- The languages that are read. -/
  languages : List Language
  /-- The names of directories that are never entered. -/
  ignored : List String
  model : Model := {}
  /-- The paths of the files that failed, with the reason of each. -/
  failures : List (String × String) := []
  filesRead : Nat := 0
  records : List Record := []

namespace Session

/-- The directories that hold no sources of one's own. -/
def defaultIgnored : List String := [
  ".git", "node_modules", "bin", "obj", "build", "dist", "__pycache__", ".venv", "venv", "target"]

/-- The languages that accept a file, in order. -/
def languagesFor (session : Session) (path : String) : List Language :=
  session.languages.filter fun language => language.accepts (Path.suffix path)

/-- Adds a record. -/
def note (session : Session) (record : Record) : Session :=
  { session with records := session.records ++ [record] }

/-- Takes in the findings of a reading. -/
def take (session : Session) (findings : List Finding) : Session :=
  { session with
    model := session.model.applyAll findings
    -- whether a finding is recorded depends on the model before it
    records := session.records ++ (session.model.noted findings).map Record.ofFinding }

/-- Records that a file failed. -/
def fail (session : Session) (path message : String) : Session :=
  let noted := session.note (.ofLoading .warning s!"Skipping {path}: {message}")
  { noted with failures := session.failures ++ [(path, message)] }

/-- Reads a source in some languages, up to the first fault. -/
def readAll (session : Session) (source : Source) : List Language → Session × Option Fault
  | [] => (session, none)
  | language :: rest =>
    let reading := source.read language
    -- what was found before the fault counts
    let after := session.take reading.findings
    match reading.fault with
    | some fault => (after, some fault)
    | none => after.readAll source rest

/-- The source in a file: its decoded text, with the line breaks unified. -/
def sourceOf (content : SourceFile) : Except Utf8.DecodeError Source :=
  (Utf8.decode content.bytes).map fun text => { text := text.unifyBreaks, tree := content.tree }

/-- Loads a file, given what came of opening it, and tells whether it was read. -/
def loadFile (session : Session) (path : String) (opened : Except PathFault SourceFile) :
    Session × Bool :=
  match session.languagesFor path with
  -- a file that no language accepts is neither opened nor counted
  | [] => (session, false)
  | languages =>
    match opened with
    | .error fault => (session.fail path (fault.message path), false)
    | .ok content =>
      match sourceOf content with
      | .error error => (session.fail path error.message, false)
      | .ok source =>
        let size := source.text.length
        let begun := session.note (.ofLoading .debug s!"Reading {path} ({size} chars)")
        match begun.readAll source languages with
        -- what was taken in before the fault stays in the model
        | (after, some fault) => (after.fail path fault.message, false)
        | (after, none) => ({ after with filesRead := after.filesRead + 1 }, true)

/-- The files below a directory that a session visits, in order; without a directory there are
none. -/
def visits (session : Session) (root : String) (directory : Option Entry) :
    List (String × SourceFile) :=
  (directory.map (Entry.visits session.ignored root)).getD []

/-- Records how far a session has come. -/
def summarize (session : Session) : Session :=
  let read := session.filesRead
  let failed := session.failures.length
  let entities := session.model.entities.length
  session.note (.ofLoading .debug s!"Read {read} files, {failed} failed, {entities} entities")

/-- Loads the files below a directory. -/
def loadTree (session : Session) (root : String) (directory : Option Entry) : Session :=
  let after := (session.visits root directory).foldl
    (fun session (path, content) => (session.loadFile path content.opened).1) session
  after.summarize

/-- Loads the files below the directory that a path leads to, if it leads to one. A path with a
null character is refused. -/
def loadPath (session : Session) (tree : FileTree) (root : String) : Except PathFault Session :=
  if root.contains '\x00' then .error .nullByte
  else .ok (session.loadTree root (tree.directory? root))

end Session

end ClassDiagram
