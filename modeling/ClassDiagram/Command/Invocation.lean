import ClassDiagram.Command.Options
import ClassDiagram.Drawing.Format
import ClassDiagram.Finding.Language

/-!
# Invocations

What a command line asks for. There is one command, which scans a source tree and writes its class
diagram; the format of the drawing and the tracing are chosen before the command, all else behind
it.

* `parse` gives an invocation, or the reason why there is none: a page of help or a usage error.
-/

namespace ClassDiagram

namespace Command

/-- The options before the command. -/
inductive GlobalOption where
  | help
  | format
  | debug
  deriving DecidableEq, Repr

/-- The options of the command. -/
inductive GenerateOption where
  | help
  | output
  | exclude
  | language
  deriving DecidableEq, Repr

/-- How the options before the command are written. -/
def globalOptions : List (OptionSpec GlobalOption) := [
  { tag := .help, names := ["-h", "--help"], takesValue := false },
  { tag := .format, names := ["--format"], takesValue := true },
  { tag := .debug, names := ["--debug"], takesValue := false }]

/-- How the options of the command are written. -/
def generateOptions : List (OptionSpec GenerateOption) := [
  { tag := .help, names := ["-h", "--help"], takesValue := false },
  { tag := .output, names := ["-o", "--output"], takesValue := true },
  { tag := .exclude, names := ["--exclude"], takesValue := true },
  { tag := .language, names := ["--language"], takesValue := true }]

/-- The pages of help: of the program and of its command. -/
inductive Page where
  | program
  | generate
  deriving DecidableEq, Repr

namespace Page

/-- The name under which errors are reported. -/
def title : Page → String
  | program => "diagram.py"
  | generate => "diagram.py generate"

/-- The usage, line by line. -/
def usage : Page → List String
  | program =>
    ["usage: diagram.py [-h] [--format \x7bplantuml,mermaid\x7d] [--debug] \x7bgenerate\x7d ..."]
  | generate => [
    "usage: diagram.py generate [-h] [-o FILE] [--exclude DIR]",
    "                           [--language \x7bcsharp,java,python,typescript\x7d]",
    "                           SRC"]

/-- What a page tells behind the usage, line by line. -/
def details : Page → List String
  | program => [
    "",
    "Class diagrams from C#, TypeScript, Python and Java sources.",
    "",
    "positional arguments:",
    "  \x7bgenerate\x7d",
    "    generate            Scan a source tree and write its class diagram.",
    "",
    "options:",
    "  -h, --help            show this help message and exit",
    "  --format \x7bplantuml,mermaid\x7d",
    "                        Output format (default: plantuml).",
    "  --debug               Trace every declaration, member and edge on stderr."]
  | generate => [
    "",
    "positional arguments:",
    "  SRC                   Root directory of the sources to scan.",
    "",
    "options:",
    "  -h, --help            show this help message and exit",
    "  -o FILE, --output FILE",
    "                        Write the diagram to FILE instead of stdout.",
    "  --exclude DIR         Directory name to skip (repeatable).",
    "  --language \x7bcsharp,java,python,typescript\x7d",
    "                        Only scan this language (repeatable; default: all)."]

/-- Lines, each ended by a line feed. -/
def unlines (lines : List String) : String := String.join (lines.map (· ++ "\n"))

/-- A page of help. -/
def help (page : Page) : String := unlines (page.usage ++ page.details)

/-- A usage error as it is reported. -/
def report (page : Page) (error : UsageError) : String :=
  unlines (page.usage ++ [s!"{page.title}: error: {error.message}"])

end Page

/-- Why a command line asks for nothing to be done. -/
inductive Stop where
  /-- A page of help is asked for. -/
  | help (page : Page)
  /-- The arguments cannot be read. -/
  | usage (page : Page) (error : UsageError)
  deriving DecidableEq, Repr

/-- What the command is to do. -/
structure Generate where
  /-- The source directory, as written. -/
  source : String
  /-- The file to write to, as written. -/
  output : Option String := none
  /-- The names of directories to skip, besides those that are always skipped; none where the
  option has no value. -/
  excluded : List (Option String) := []
  /-- The languages to read, all if none is named; none where the option has no value. -/
  languages : List (Option Language) := []
  deriving DecidableEq, Repr

/-- What a command line asks for. -/
structure Invocation where
  /-- The format of the drawing; none if the option has no value. -/
  format : Option Format := some .plantUml
  debug : Bool := false
  generate : Option Generate := none
  deriving DecidableEq, Repr

/-- The thing that a value, if there is one, names in a catalog. -/
def choose (page : Page) (label : String) (catalog : Catalog α) :
    Option String → Except Stop (Option α)
  | none => .ok none
  | some value =>
    match catalog.find? value with
    | some entry => .ok (some entry.value)
    | none => .error (.usage page (.invalidChoice label value catalog.keys))

/-- What the arguments of the command have told so far. -/
structure Draft where
  source : Option String := none
  output : Option String := none
  excluded : List (Option String) := []
  languages : List (Option Language) := []
  deriving DecidableEq, Repr

/-- Takes the effect of one event of the command. -/
def Draft.step (draft : Draft) : Event GenerateOption → Except Stop Draft
  -- one separator among the arguments is not the source
  | .positional values => .ok { draft with source := (values.erase "--").head? }
  | .option spec value =>
    match spec.tag with
    | .help => .error (.help .generate)
    | .output => .ok { draft with output := value }
    | .exclude => .ok { draft with excluded := draft.excluded ++ [value] }
    | .language => do
      let language ← choose .generate spec.label Language.catalog value
      return { draft with languages := draft.languages ++ [language] }

/-- Takes the effects of some steps, up to the first error. -/
def takeSteps (page : Page) (effect : σ → Event α → Except Stop σ) (state : σ) :
    List (Step α) → Except Stop σ
  | [] => .ok state
  | .error error :: _ => .error (.usage page error)
  | .ok event :: rest => do takeSteps page effect (← effect state event) rest

/-- Reads the arguments of the command: what it is to do, and what means nothing to it. -/
def parseGenerate (arguments : List String) : Except Stop (Generate × List String) :=
  match classify generateOptions arguments with
  | .error error => .error (.usage .generate error)
  | .ok items => do
    let (steps, extras) := walk generateOptions .single true items
    let draft ← takeSteps .generate Draft.step {} steps
    match draft.source with
    | none => .error (.usage .generate (.missing ["SRC"]))
    | some source =>
      return ({
        source := source
        output := draft.output
        excluded := draft.excluded
        languages := draft.languages }, extras)

/-- Takes the effect of one event before or at the command. -/
def globalStep (state : Invocation × List String) :
    Event GlobalOption → Except Stop (Invocation × List String)
  | .positional values =>
    match values with
    | "generate" :: arguments => do
      let (generate, extras) ← parseGenerate arguments
      return ({ state.1 with generate := some generate }, state.2 ++ extras)
    | first :: _ => .error (.usage .program (.invalidChoice "command" first ["generate"]))
    | [] => .ok state
  | .option spec value =>
    match spec.tag with
    | .help => .error (.help .program)
    | .debug => .ok ({ state.1 with debug := true }, state.2)
    | .format => do
      let format ← choose .program spec.label Format.catalog value
      return ({ state.1 with format := format }, state.2)

/-- Reads a command line. -/
def parse (arguments : List String) : Except Stop Invocation :=
  match classify globalOptions arguments with
  | .error error => .error (.usage .program error)
  | .ok items => do
    let (steps, extras) := walk globalOptions .rest true items
    let (invocation, inner) ← takeSteps .program globalStep ({}, []) steps
    -- what means nothing is reported after the command was read, and its own errors come first
    let unknown := extras ++ inner
    if unknown.isEmpty then .ok invocation else .error (.usage .program (.unrecognized unknown))

end Command

end ClassDiagram
