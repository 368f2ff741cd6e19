import ClassDiagram.Finding.Basic

/-!
# Trace records

What happens in a run is told by records: every noted finding and every file that is read or
skipped.
-/

namespace ClassDiagram

/-- How much a record matters. -/
inductive Level where
  | debug
  | warning
  deriving DecidableEq, Repr

/-- The word for a level. -/
def Level.word : Level → String
  | debug => "DEBUG"
  | warning => "WARNING"

/-- A record of the trace: its level, the part that made it, and what it says. -/
structure Record where
  level : Level
  origin : String
  message : String
  deriving DecidableEq, Repr

namespace Record

/-- A record without its origin. -/
def short (record : Record) : String := s!"{record.level.word} {record.message}"

/-- A record as a line of the log, the level padded to eight places. -/
def line (record : Record) : String :=
  let level := String.ofList (record.level.word.toList.rightpad 8 ' ')
  s!"{level} | {record.origin} - {record.message}"

/-- The record of a noted finding. Dependencies are told by the reading of type expressions,
except in Java, where the syntax tree tells them. -/
def ofFinding (finding : Finding) : Record :=
  let reader := s!"typegraph.extractors.{finding.language.key}"
  let origin :=
    match finding.language, finding.fact with
    | .java, _ => reader
    | _, .uses .. => "typegraph.typenames"
    | _, _ => reader
  ⟨.debug, origin, finding.message⟩

/-- A record of loading. -/
def ofLoading (level : Level) (message : String) : Record := ⟨level, "typegraph.builder", message⟩

end Record

end ClassDiagram
