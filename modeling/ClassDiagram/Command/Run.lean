import ClassDiagram.Command.Invocation
import ClassDiagram.Loading.Session

/-!
# Running a command line

What a command line does to a tree of files, and what it prints.

* `request` tells what is to be done, before any file is touched.
* `run` does it on a tree of files: the drawing of the source directory is printed or written.
-/

namespace ClassDiagram

namespace Command

/-- How a run ends: with a code, or with a message to the user. -/
inductive Exit where
  | code (value : Nat)
  | message (text : String)
  deriving DecidableEq, Repr

/-- Why a run breaks off. -/
inductive Breakdown where
  /-- An option that is needed has no value. -/
  | valueMissing
  /-- The path of the file to write holds a null character. -/
  | nullByte
  deriving DecidableEq, Repr

/-- A breakdown in words. -/
def Breakdown.message : Breakdown → String
  | valueMissing => "unhashable type: 'list'"
  | nullByte => PathFault.reason .nullByte

/-- What a run prints, and how it ends. -/
structure Outcome where
  exit : Exit
  stdout : String := ""
  stderr : String := ""
  deriving DecidableEq, Repr

/-- The outcome of a command line that asks for nothing to be done. -/
def Stop.outcome : Stop → Outcome
  | .help page => { exit := .code 0, stdout := page.help }
  | .usage page error => { exit := .code 2, stderr := page.report error }

namespace Generate

/-- The path under which the files of the source directory are shown. -/
def root (config : Generate) : String := Path.normalize config.source

/-- The file that the drawing is written to; an empty name is none. -/
def target? (config : Generate) : Option String :=
  (config.output.filter fun output => !output.isEmpty).map Path.normalize

/-- The outcome if the source directory is not there. -/
def sourceMissing (config : Generate) : Outcome where
  exit := .message (
    if config.source.isEmpty then
      "Error: No source directory provided. Usage: diagram.py generate SRC"
    else s!"Error: Source directory not found: {config.source}")

end Generate

/-- What a session and its drawing need to know, all values given. -/
structure Job where
  format : Format
  languages : List Language
  excluded : List String
  deriving DecidableEq, Repr

/-- The session that a run starts with. -/
def Job.start (job : Job) : Session where
  languages :=
    if job.languages.isEmpty then Language.catalog.entries.map CatalogEntry.value
    else job.languages
  ignored := Session.defaultIgnored ++ job.excluded

namespace Invocation

/-- The job of an invocation, unless the value of an option is missing. -/
def job (invocation : Invocation) (config : Generate) : Except Breakdown Job :=
  match invocation.format, config.languages.mapM id, config.excluded.mapM id with
  | some format, some languages, some excluded => .ok ⟨format, languages, excluded⟩
  | _, _, _ => .error .valueMissing

/-- The log of a session: its warnings, and all records if they are asked for. -/
def log (invocation : Invocation) (session : Session) : String :=
  let shown := session.records.filter fun record => invocation.debug || record.level == .warning
  Page.unlines (shown.map Record.line)

/-- The outcome of a session whose drawing is done, with what of it goes to the output stream. -/
def done (invocation : Invocation) (session : Session) (printed : String) : Outcome where
  exit := .code 0
  stdout := printed
  stderr :=
    let count := session.failures.length
    let skipped := if count = 0 then "" else s!"{count} file(s) skipped, see log above.\n"
    invocation.log session ++ skipped

/-- The outcome of a session whose drawing cannot be written. -/
def notWritten (invocation : Invocation) (session : Session) (path : String)
    (fault : PathFault) : Outcome where
  exit := .message s!"Error: Cannot write {path}: {fault.reason}"
  stderr := invocation.log session

end Invocation

/-- What a command line asks to be done; otherwise the outcome. Without a command the help is
shown. -/
def request (arguments : List String) : Except Outcome (Invocation × Generate) :=
  match parse arguments with
  | .error stop => .error stop.outcome
  | .ok invocation =>
    match invocation.generate with
    | none => .error { exit := .code 1, stdout := Page.program.help }
    | some config => .ok (invocation, config)

/-- Runs a command line on a tree of files: the outcome, and the tree behind it. -/
def run (tree : FileTree) (arguments : List String) : Except Breakdown (Outcome × FileTree) :=
  match request arguments with
  | .error outcome => .ok (outcome, tree)
  | .ok (invocation, config) =>
    match tree.directory? config.source with
    | none => .ok (config.sourceMissing, tree)
    | some directory => do
      -- an option without a value breaks the run only once there is a directory to read
      let job ← invocation.job config
      let session := job.start.loadTree config.root (some directory)
      let text := job.format.render session.model
      match config.target? with
      | none => return (invocation.done session text, tree)
      | some path =>
        match tree.write? path { bytes := text.toUTF8.toList } with
        | .ok after => return (invocation.done session "", after)
        -- a null character in the path is no fault of writing, and breaks the run
        | .error .nullByte => .error .nullByte
        | .error fault => return (invocation.notWritten session path fault, tree)

end Command

end ClassDiagram
