import ClassDiagram.Text.Basic
import ClassDiagram.Text.Letter
import ClassDiagram.Text.Quoted

/-!
# Options and arguments

How a list of arguments is read against a list of options and one positional argument.

* A long option may be shortened to any unique prefix, and its value may follow an equals sign.
* Short options may be written together up to the first that takes a value, and the value directly
  behind it.
* All behind a double dash are plain arguments. A double dash that is written as the value of an
  option leaves the option without a value.
* Reading gives steps in the order in which they take effect, up to the first error.
-/

namespace ClassDiagram

namespace Command

/-- An option: what it stands for, its names, and whether it takes a value. -/
structure OptionSpec (α : Type) where
  tag : α
  names : List String
  takesValue : Bool

/-- How a positional argument takes its part of the arguments. -/
inductive Positional where
  /-- One argument. -/
  | single
  /-- One argument and all that follows it. -/
  | rest
  deriving DecidableEq, Repr

/-- Why arguments cannot be read. -/
inductive UsageError where
  | ambiguous (written : String) (candidates : List String)
  | expectedValue (label : String)
  | ignoredValue (label value : String)
  | invalidChoice (label value : String) (choices : List String)
  | missing (names : List String)
  | unrecognized (arguments : List String)
  deriving DecidableEq, Repr

/-- An error in words. -/
def UsageError.message : UsageError → String
  | ambiguous written candidates =>
    let list := ", ".intercalate candidates
    s!"ambiguous option: {written} could match {list}"
  | expectedValue label => s!"argument {label}: expected one argument"
  | ignoredValue label value =>
    s!"argument {label}: ignored explicit argument {Quoted.quote value}"
  | invalidChoice label value choices =>
    let list := ", ".intercalate (choices.map Quoted.quote)
    s!"argument {label}: invalid choice: {Quoted.quote value} (choose from {list})"
  | missing names =>
    let list := ", ".intercalate names
    s!"the following arguments are required: {list}"
  | unrecognized arguments =>
    let list := " ".intercalate arguments
    s!"unrecognized arguments: {list}"

variable {α : Type}

/-- The label of an option in messages. -/
def OptionSpec.label (spec : OptionSpec α) : String := "/".intercalate spec.names

/-- The use of an option: which one, the name it is used by, and a value written with it. -/
structure OptionUse (α : Type) where
  spec : Option (OptionSpec α)
  name : Text
  value : Option Text := none

/-- What an argument is. -/
inductive Mark (α : Type) where
  | argument
  | separator
  | option (use : OptionUse α)

/-- All names of some options, with their options, in order. -/
def allNames (options : List (OptionSpec α)) : List (Text × OptionSpec α) :=
  options.flatMap fun spec => spec.names.map fun name => (name.toList, spec)

/-- The option of a name. -/
def named? (options : List (OptionSpec α)) (name : Text) : Option (OptionSpec α) :=
  ((allNames options).find? fun (other, _) => other == name).map Prod.snd

/-- Splits at the first equals sign, if there is one. -/
def splitEquals (text : Text) : Text × Option Text :=
  if text.contains '=' then (text.upTo '=', some (text.past '=')) else (text, none)

/-- Whether a name has two dashes. -/
def isLong (name : Text) : Bool := ['-', '-'].isPrefixOf name

/-- The options that an argument may mean: of a long one all that it is a prefix of, of a short
one those that it is a prefix of and the one that it holds with a value behind. -/
def candidates (options : List (OptionSpec α)) (written : Text) : List (OptionUse α) :=
  if isLong written then
    let (front, value) := splitEquals written
    (allNames options).filterMap fun (name, spec) =>
      if front.isPrefixOf name then some ⟨some spec, name, value⟩ else none
  else
    (allNames options).filterMap fun (name, spec) =>
      -- a short option with its value right behind it, or the start of a long one with one dash
      if name = written.take 2 then some ⟨some spec, name, some (written.drop 2)⟩
      else if written.isPrefixOf name then some ⟨some spec, name, none⟩
      else none

/-- Whether an argument is a negative number; a line feed may end it. -/
def isNegativeNumber (written : Text) : Bool :=
  match written with
  | '-' :: number =>
    let number := if number.getLast? = some '\n' then number.dropLast else number
    match number.dropWhile Text.isDigit with
    | [] => !number.isEmpty
    | '.' :: fraction => !fraction.isEmpty && fraction.all Text.isDigit
    | _ => false
  | _ => false

/-- The use of an option that an argument is; none for a plain argument. -/
def optionUse? (options : List (OptionSpec α)) (written : Text) :
    Except UsageError (Option (OptionUse α)) :=
  match written with
  | '-' :: _ :: _ =>
    match named? options written, named? options (splitEquals written).1 with
    | some spec, _ => .ok (some ⟨some spec, written, none⟩)
    | none, some spec => .ok (some ⟨some spec, (splitEquals written).1, (splitEquals written).2⟩)
    | none, none =>
      match candidates options written with
      | [only] => .ok (some only)
      | [] =>
        -- what looks like an option but is a number, or holds a blank, is a plain argument
        if isNegativeNumber written || written.contains ' ' then .ok none
        else .ok (some ⟨none, written, none⟩)
      | several =>
        .error (.ambiguous (String.ofList written)
          (several.map fun use => String.ofList use.name))
  | _ => .ok none

/-- Tells options, plain arguments and the separator apart. -/
def classify (options : List (OptionSpec α)) :
    List String → Except UsageError (List (String × Mark α))
  | [] => .ok []
  | written :: rest =>
    -- behind the separator nothing is an option
    if written = "--" then .ok ((written, .separator) :: rest.map fun plain => (plain, .argument))
    else do
      let use ← optionUse? options written.toList
      let later ← classify options rest
      match use with
      | some use => return (written, .option use) :: later
      | none => return (written, .argument) :: later

/-- What reading an argument brings about. -/
inductive Event (α : Type) where
  /-- An option is used, with its value if it has one. -/
  | option (spec : OptionSpec α) (value : Option String)
  /-- The positional argument takes some arguments. -/
  | positional (values : List String)

/-- What comes of using an option: events, and what follows. -/
structure Consumed (α : Type) where
  events : List (Event α)
  rest : List (String × Mark α)

/-- The value that an option has by what is written as its value: a double dash is none. -/
def valueOf? (written : String) : Option String := if written = "--" then none else some written

/-- A text that is not empty. -/
def nonEmpty? : Text → Option Text
  | [] => none
  | c :: rest => some (c :: rest)

/-- The short option that a character is read as behind another option; none behind a long one. -/
def shortBehind? (options : List (OptionSpec α)) (name : Text) (c : Char) : Option (OptionSpec α) :=
  if isLong name then none else named? options ['-', c]

/-- Uses an option: its value is written with it or is the next argument. Behind a short option
that takes none, the text that follows is read as further short options. -/
def consume (options : List (OptionSpec α)) (spec : OptionSpec α) (name : Text)
    (value : Option Text) (rest : List (String × Mark α)) : Except UsageError (Consumed α) :=
  match value with
  | none =>
    if spec.takesValue then
      match rest with
      -- an option's name is never taken as a value
      | (next, .argument) :: behind => .ok ⟨[.option spec (valueOf? next)], behind⟩
      | _ => .error (.expectedValue spec.label)
    else .ok ⟨[.option spec none], rest⟩
  | some written =>
    if spec.takesValue then .ok ⟨[.option spec (valueOf? (String.ofList written))], rest⟩
    else
      match written with
      | [] => .error (.ignoredValue spec.label "")
      | c :: tail =>
        match shortBehind? options name c with
        | some next => do
          let later ← consume options next ['-', c] (nonEmpty? tail) rest
          return { later with events := .option spec none :: later.events }
        | none => .error (.ignoredValue spec.label (String.ofList (c :: tail)))
termination_by (value.map fun written => written.length + 1).getD 0
decreasing_by
  cases tail <;> simp [nonEmpty?]

theorem length_rest_le_of_consume {options : List (OptionSpec α)} {spec : OptionSpec α}
    {name : Text} {value : Option Text} {rest : List (String × Mark α)}
    {consumed : Consumed α} (h : consume options spec name value rest = .ok consumed) :
    consumed.rest.length ≤ rest.length := by
  fun_induction consume options spec name value rest generalizing consumed with
  | case1 =>
    rename_i hrest
    obtain rfl := Except.ok.inj h
    simp [hrest]
  | case2 => simp at h
  | case3 =>
    obtain rfl := Except.ok.inj h
    exact Nat.le_refl _
  | case4 =>
    obtain rfl := Except.ok.inj h
    exact Nat.le_refl _
  | case5 => simp at h
  | case6 spec name _ c tail next _ ih =>
    cases hnext : consume options next ['-', c] (nonEmpty? tail) rest with
    | error error => simp [hnext, bind, Except.bind] at h
    | ok later =>
      simp only [hnext, bind, Except.bind, pure, Except.pure, Except.ok.injEq] at h
      have hlater : later.rest.length ≤ rest.length := ih hnext
      simpa [← h] using hlater
  | case7 => simp at h

/-- How many of some arguments a positional takes. -/
def Positional.count (positional : Positional) (items : List (String × Mark α)) : Nat :=
  let isSeparator : String × Mark α → Bool := fun (_, mark) =>
    match mark with
    | .separator => true
    | _ => false
  let lead := (items.takeWhile isSeparator).length
  -- separators around the argument are taken with it
  match items.drop lead with
  | (_, .argument) :: behind =>
    match positional with
    | .rest => items.length
    | .single => lead + 1 + (behind.takeWhile isSeparator).length
  | _ => 0

/-- A step of reading: an event or an error that ends it. -/
abbrev Step (α : Type) := Except UsageError (Event α)

/-- The event of a positional that takes some arguments, if it takes any. -/
def positionalSteps (items : List (String × Mark α)) : List (Step α) :=
  if items.isEmpty then [] else [.ok (.positional (items.map Prod.fst))]

/-- Reads classified arguments: the steps, and the arguments that mean nothing. The positional is
`wanted` until it has taken its part. -/
def walk (options : List (OptionSpec α)) (positional : Positional) (wanted : Bool)
    (items : List (String × Mark α)) : List (Step α) × List String :=
  match items with
  | [] => ([], [])
  | (written, .option use) :: rest =>
    match use.spec with
    | none =>
      let (steps, extras) := walk options positional wanted rest
      (steps, written :: extras)
    | some spec =>
      match h : consume options spec use.name use.value rest with
      | .error error => ([.error error], [])
      | .ok consumed =>
        let (steps, extras) := walk options positional wanted consumed.rest
        (consumed.events.map .ok ++ steps, extras)
  | (written, mark) :: rest =>
    -- the positional takes what it can at the first place where it can take anything
    let taken := if wanted then positional.count ((written, mark) :: rest) else 0
    if htaken : 0 < taken then
      let (steps, extras) := walk options positional false (((written, mark) :: rest).drop taken)
      (positionalSteps (((written, mark) :: rest).take taken) ++ steps, extras)
    else
      let (steps, extras) := walk options positional wanted rest
      (steps, written :: extras)
termination_by items.length
decreasing_by
  · simp
  · exact Nat.lt_succ_of_le (length_rest_le_of_consume h)
  · rw [List.length_drop, List.length_cons]
    omega
  · simp

end Command

end ClassDiagram
