import ClassDiagram.Loading.Path
import ClassDiagram.Text.Quoted
import ClassDiagram.Tree.Node

/-!
# File trees

Directories and files, how a path leads through them, and in which order a directory is visited:
its files in ascending order, then its subdirectories in ascending order.

* Of what lies above or beside the tree nothing is seen.
* `visits` lists the files of a directory in the order of the visit.
* `open?` and `write?` follow a path as a file system does, and tell why they cannot.
-/

namespace ClassDiagram

/-- Why a path cannot be followed or used. -/
inductive PathFault where
  | notFound
  | notDirectory
  | isDirectory
  | denied
  /-- A component or the whole path has too many bytes. -/
  | tooLong
  /-- The path holds a null character. -/
  | nullByte
  deriving DecidableEq, Repr

namespace PathFault

/-- The number of a fault, if it has one. -/
def number? : PathFault → Option Nat
  | notFound => some 2
  | denied => some 13
  | notDirectory => some 20
  | isDirectory => some 21
  | tooLong => some 36
  | nullByte => none

/-- A fault in words. -/
def reason : PathFault → String
  | notFound => "No such file or directory"
  | denied => "Permission denied"
  | notDirectory => "Not a directory"
  | isDirectory => "Is a directory"
  | tooLong => "File name too long"
  | nullByte => "embedded null byte"

/-- A fault with the path that it concerns. -/
def message (fault : PathFault) (path : String) : String :=
  match fault.number? with
  | some number => s!"[Errno {number}] {fault.reason}: {Quoted.quote path}"
  | none => fault.reason

end PathFault

/-- The contents of a file, with the syntax tree of its text if one is at hand, and the fault that
keeps it from being opened if there is one. -/
structure SourceFile where
  bytes : List UInt8
  tree : Option Node := none
  fault : Option PathFault := none

/-- What comes of opening a file. -/
def SourceFile.opened (file : SourceFile) : Except PathFault SourceFile :=
  match file.fault with
  | some fault => .error fault
  | none => .ok file

/-- A file or a directory. -/
inductive Entry where
  | file (name : String) (content : SourceFile)
  | directory (name : String) (entries : List Entry)

namespace Entry

/-- The name of an entry. -/
def name : Entry → String
  | file name _ => name
  | directory name _ => name

/-- Puts a named thing at its place among things in ascending order of their names. -/
def placeByName (named : String × α) : List (String × α) → List (String × α)
  | [] => [named]
  | first :: rest =>
    if named.1 ≤ first.1 then named :: first :: rest else first :: placeByName named rest

/-- Named things in ascending order of their names. -/
def sortByName (things : List (String × α)) : List (String × α) := things.foldr placeByName []

/-- The files among some entries, with their names. -/
def files (entries : List Entry) : List (String × SourceFile) :=
  entries.filterMap fun entry =>
    match entry with
    | file name content => some (name, content)
    | directory .. => none

mutual

/-- The files below an entry reached by `path`, in the order of the visit. Directories with an
ignored name are not entered. -/
def visits (ignored : List String) (path : String) : Entry → List (String × SourceFile)
  | file .. => []
  | directory _ entries =>
    -- the files of a directory come before those of the directories in it
    (sortByName (files entries)).map (fun (name, content) => (Path.join path name, content)) ++
      (sortByName (visitsAmong ignored path entries)).flatMap Prod.snd

/-- The visits of the directories among some entries, with their names. -/
def visitsAmong (ignored : List String) (path : String) :
    List Entry → List (String × List (String × SourceFile))
  | [] => []
  | entry :: rest =>
    match entry with
    | file .. => visitsAmong ignored path rest
    | directory name entries =>
      if ignored.contains name then visitsAmong ignored path rest
      else
        (name, visits ignored (Path.join path name) (directory name entries)) ::
          visitsAmong ignored path rest

end

/-- The entry of a name. -/
def find? (entries : List Entry) (name : String) : Option Entry :=
  entries.find? fun entry => entry.name = name

/-- Puts an entry among others, in place of one of the same name. -/
def put (entries : List Entry) (entry : Entry) : List Entry :=
  if (find? entries entry.name).isSome then
    entries.map fun other => if other.name = entry.name then entry else other
  else entries ++ [entry]

end Entry

/-- A tree of files: the entries of the directory that paths start from. -/
structure FileTree where
  entries : List Entry := []

namespace FileTree

/-- The entry that a list of names leads to. -/
def entryAt? (entries : List Entry) : List String → Option Entry
  | [] => some (.directory "" entries)
  | [name] => Entry.find? entries name
  | name :: rest =>
    match Entry.find? entries name with
    | some (.directory _ inner) => entryAt? inner rest
    | _ => none

/-- Puts a file or, without content, a directory at a list of names; missing directories are
made, and a directory that is there stays. -/
def insertAt (entries : List Entry) : List String → Option SourceFile → List Entry
  | [], _ => entries
  | name :: rest, content =>
    let inner :=
      match Entry.find? entries name with
      | some (.directory _ inner) => inner
      | _ => []
    match rest, content with
    | [], some file => Entry.put entries (.file name file)
    | _, _ => Entry.put entries (.directory name (insertAt inner rest content))

/-- Adds a file or, without content, a directory under a path that leads upwards nowhere. -/
def insert (tree : FileTree) (path : String) (content : Option SourceFile) : FileTree :=
  let names := (Path.components path).filter fun name => name != "" && name != "."
  { entries := insertAt tree.entries names content }

/-- The number of bytes that a name may have. -/
def nameLimit : Nat := 255

/-- The number of bytes that a path may have. -/
def pathLimit : Nat := 4095

/-- The fault of a path that is refused before it is followed. -/
def refusal? (path : String) : Option PathFault :=
  if path.contains '\x00' then some .nullByte
  else if path.isEmpty then some .notFound
  else if pathLimit < path.utf8ByteSize then some .tooLong
  else none

/-- A place that a path leads to. -/
inductive Place where
  /-- In the tree, by the names on the way, innermost first. -/
  | inside (trail : List String)
  /-- In a directory above or beside the tree, of which nothing is seen. -/
  | outside
  deriving DecidableEq, Repr

/-- The place that a path starts from. -/
def startOf (path : String) : Place :=
  if path.toList.head? = some '/' then .outside else .inside []

/-- Follows components from a place. -/
def follow (tree : FileTree) (place : Place) : List String → Except PathFault Place
  | [] => .ok place
  | component :: rest =>
    match place with
    | .outside =>
      -- no way leads back into the tree from outside
      if component = "" ∨ component = "." ∨ component = ".." then tree.follow .outside rest
      else if nameLimit < component.utf8ByteSize then .error .tooLong
      else .error .notFound
    | .inside trail =>
      match entryAt? tree.entries trail.reverse with
      | some (.directory _ entries) =>
        if component = "" ∨ component = "." then tree.follow (.inside trail) rest
        else if component = ".." then
          match trail with
          | [] => tree.follow .outside rest
          | _ :: outer => tree.follow (.inside outer) rest
        else if nameLimit < component.utf8ByteSize then .error .tooLong
        else if (Entry.find? entries component).isSome then
          tree.follow (.inside (component :: trail)) rest
        else .error .notFound
      -- a file on the way is no directory, not even before a dot
      | _ => .error .notDirectory

/-- The entry at a place; a directory outside of the tree is as good as empty. -/
def entryOf (tree : FileTree) : Place → Except PathFault Entry
  | .outside => .ok (.directory "" [])
  | .inside trail =>
    match entryAt? tree.entries trail.reverse with
    | some entry => .ok entry
    | none => .error .notFound

/-- The entry that a path leads to. -/
def entry? (tree : FileTree) (path : String) : Except PathFault Entry :=
  match refusal? path with
  | some fault => .error fault
  | none => do tree.entryOf (← tree.follow (startOf path) (Path.components path))

/-- The directory that a path leads to. -/
def directory? (tree : FileTree) (path : String) : Option Entry :=
  match tree.entry? path with
  | .ok (.directory name entries) => some (.directory name entries)
  | _ => none

/-- The contents of the file that a path leads to. -/
def open? (tree : FileTree) (path : String) : Except PathFault SourceFile :=
  match tree.entry? path with
  | .ok (.file _ content) => content.opened
  | .ok (.directory ..) => .error .isDirectory
  | .error fault => .error fault

/-- The tree with a file of some name written at a place. Outside of the tree it is not seen. -/
def writeAt (tree : FileTree) (place : Place) (name : String) (content : SourceFile) :
    Except PathFault FileTree := do
  match place, ← tree.entryOf place with
  | _, .file .. => .error .notDirectory
  | place, .directory _ entries =>
    -- a path that ends in a slash or a dot is a directory's
    if name = "" ∨ name = "." ∨ name = ".." then .error .isDirectory
    else if nameLimit < name.utf8ByteSize then .error .tooLong
    else
      match place, Entry.find? entries name with
      | _, some (.directory ..) => .error .isDirectory
      | .outside, _ => .ok tree
      | .inside trail, _ =>
        .ok { entries := insertAt tree.entries (trail.reverse ++ [name]) (some content) }

/-- The tree with a file written under a path. -/
def write? (tree : FileTree) (path : String) (content : SourceFile) : Except PathFault FileTree :=
  match refusal? path with
  | some fault => .error fault
  | none => do
    let names := Path.components path
    let place ← tree.follow (startOf path) names.dropLast
    tree.writeAt place (names.getLast?.getD "") content

/-- All files of a tree with their paths. -/
def files (tree : FileTree) : List (String × SourceFile) :=
  Entry.visits [] "" (.directory "" tree.entries)

/-- The files of a tree that another one lacks or has with other contents. -/
def changes (before after : FileTree) : List (String × SourceFile) :=
  after.files.filter fun (path, content) =>
    !before.files.any fun (other, old) => other == path && old.bytes == content.bytes

end FileTree

end ClassDiagram
