import ClassDiagram.Loading.Session
import ClassDiagram.Proofs.Model.Settled
import ClassDiagram.Proofs.Reading.PythonOwner

/-!
# Contributing a source

A session takes in what a source tells in some languages, up to the first fault. What it takes in is
decided by the source alone, so that the session after it is the fold of one reading. Hence a
contribution only makes the model grow, and made a second time it changes nothing.

* `Source.readAll`: what a source tells in some languages.
* `Session.readAll_eq`: a session takes in exactly that.
* `Session.grows_readAll`: the model grows, whether the reading comes to its end or not.
* `Session.readAll_again`: the same source once more.
-/

namespace ClassDiagram

namespace Source

/-- What comes of reading a source in some languages, up to the first fault. -/
def readAll (source : Source) : List Language → Reading
  | [] => {}
  | language :: rest =>
    let reading := source.read language
    match reading.fault with
    | some fault => { findings := reading.findings, fault := some fault }
    | none =>
      let later := source.readAll rest
      { findings := reading.findings ++ later.findings, fault := later.fault }

variable (source : Source)

/-- What a source tells in some languages is owned. -/
theorem owned_readAll (languages : List Language) :
    Owned [] ((source.readAll languages).findings.map Finding.fact) := by
  induction languages with
  | nil => trivial
  | cons language rest ih =>
      have hfirst : Owned [] ((source.read language).findings.map Finding.fact) :=
        Contribution.owned_findings ⟨language, source⟩
      rw [readAll]
      dsimp only
      split
      · exact hfirst
      · rw [List.map_append]
        exact hfirst.append (ih.mono (List.nil_subset _))

end Source

namespace Model

theorem applyAll_append (model : Model) (findings others : List Finding) :
    model.applyAll (findings ++ others) = (model.applyAll findings).applyAll others :=
  List.foldl_append

theorem noted_append (model : Model) (findings others : List Finding) :
    model.noted (findings ++ others) =
      model.noted findings ++ (model.applyAll findings).noted others := by
  induction findings generalizing model with
  | nil => rfl
  | cons finding rest ih =>
      rw [List.cons_append, noted, noted, ih]
      show (if finding.isNoted model then _ else _) =
        (if finding.isNoted model then _ else _) ++ ((finding.apply model).applyAll rest).noted others
      split <;> rfl

end Model

namespace Session

variable (session : Session)

theorem take_take (findings others : List Finding) :
    (session.take findings).take others = session.take (findings ++ others) := by
  simp [take, Model.applyAll_append, Model.noted_append]

/-- A session takes in what the source tells, and ends with the same fault. -/
theorem readAll_eq (source : Source) (languages : List Language) :
    session.readAll source languages =
      (session.take (source.readAll languages).findings, (source.readAll languages).fault) := by
  induction languages generalizing session with
  | nil => simp [readAll, Source.readAll, take, Model.applyAll, Model.noted]
  | cons language rest ih =>
      cases hfault : (source.read language).fault with
      | some fault => simp only [readAll, Source.readAll, hfault]
      | none => simp only [readAll, Source.readAll, hfault, ih, take_take]

/-- By a contribution the model only grows, whether the reading comes to its end or breaks off:
entities stay in front with their names and kinds, members stay in front of those that are added,
bases and interfaces stay, and so do dependencies, unless they become bases or interfaces. -/
theorem grows_readAll (source : Source) (languages : List Language) :
    session.model.Grows (session.readAll source languages).1.model := by
  rw [readAll_eq]
  exact session.model.grows_applyAll _

/-- A contribution that is made once more right after the first changes nothing in the model, and
ends with the same fault or without one as before. -/
theorem readAll_again (source : Source) (languages : List Language) :
    let once := session.readAll source languages
    let twice := once.1.readAll source languages
    twice.1.model = once.1.model ∧ twice.2 = once.2 := by
  dsimp only
  rw [readAll_eq, readAll_eq]
  refine ⟨?_, rfl⟩
  exact Model.applyAll_applyAll ((source.owned_readAll languages).mono (List.nil_subset _))

end Session

end ClassDiagram
