import ClassDiagram.Command.Run

/-!
# The program

Reads directories and files and writes the outcome of a command line. What is to be done and
what is printed is decided by `ClassDiagram.Command`.
-/

namespace ClassDiagram

namespace Program

/-- The fault behind an error of the file system. -/
def faultOf : IO.Error → PathFault
  | .noFileOrDirectory .. => .notFound
  | .inappropriateType _ code _ => if code = 21 then .isDirectory else .notDirectory
  | .invalidArgument _ code _ => if code = 36 then .tooLong else .denied
  | _ => .denied

/-- The tree of some entries on disk, without the contents of files. Linked directories are not
entered, nor are ignored ones. -/
partial def listing (ignored : List String) (name : String) (found : Array IO.FS.DirEntry) :
    IO Entry := do
  let mut entries := #[]
  for entry in found do
    if !(← entry.path.isDir) then
      entries := entries.push (.file entry.fileName { bytes := [] })
    else if ignored.contains entry.fileName then
      entries := entries.push (.directory entry.fileName [])
    else if (← entry.path.symlinkMetadata).type == .symlink then
      entries := entries.push (.directory entry.fileName [])
    else
      let inner ← try entry.path.readDir catch _ => pure #[]
      entries := entries.push (← listing ignored entry.fileName inner)
  return .directory name entries.toList

/-- The entries of the directory at a path, if there is one. -/
def entriesAt? (path : String) : IO (Option (Array IO.FS.DirEntry)) := do
  if path.isEmpty || path.contains '\x00' then return none
  try
    let place ← IO.FS.realPath path
    if ← place.isDir then return some (← try place.readDir catch _ => pure #[])
    else return none
  catch _ => return none

/-- Opens a file. -/
def openFile (path : String) : IO (Except PathFault SourceFile) := do
  try
    let bytes ← IO.FS.readBinFile path
    return .ok { bytes := bytes.toList }
  catch error => return .error (faultOf error)

/-- Writes a file. -/
def writeFile (path text : String) : IO (Except PathFault Unit) := do
  if path.contains '\x00' then return .error .nullByte
  try
    IO.FS.writeFile path text
    return .ok ()
  catch error => return .error (faultOf error)

/-- Loads the files below a directory, opening those that are read. -/
def load (start : Session) (root : String) (directory : Entry) : IO Session := do
  let mut session := start
  for (path, _) in start.visits root (some directory) do
    unless (session.languagesFor path).isEmpty do
      session := (session.loadFile path (← openFile path)).1
  return session.summarize

/-- Prints an outcome and gives the code to exit with. -/
def report (outcome : Command.Outcome) : IO UInt32 := do
  IO.print outcome.stdout
  IO.eprint outcome.stderr
  match outcome.exit with
  | .code value => return value.toUInt32
  | .message text =>
    IO.eprintln text
    return 1

/-- Prints why a run breaks off and gives the code to exit with. -/
def giveUp (cause : Command.Breakdown) : IO UInt32 := do
  IO.eprintln cause.message
  return 1

end Program

end ClassDiagram

open ClassDiagram in
/-- Runs the command line. -/
def main (arguments : List String) : IO UInt32 := do
  match Command.request arguments with
  | .error outcome => Program.report outcome
  | .ok (invocation, config) =>
    match ← Program.entriesAt? config.source, invocation.job config with
    | none, _ => Program.report config.sourceMissing
    | some _, .error cause => Program.giveUp cause
    | some found, .ok job =>
      let start := job.start
      let directory ← Program.listing start.ignored "" found
      let session ← Program.load start config.root directory
      let text := job.format.render session.model
      match config.target? with
      | none => Program.report (invocation.done session text)
      | some path =>
        match ← Program.writeFile path text with
        | .ok _ => Program.report (invocation.done session "")
        | .error .nullByte => Program.giveUp .nullByte
        | .error fault => Program.report (invocation.notWritten session path fault)
