import Mathlib.Logic.Relation
import Mathlib.Tactic.Choose
import ClassDiagram.Proofs.TypeExpr.Names

/-!
# How deep a type expression is taken apart

Taking an expression apart calls itself on parts of the cleaned expression. Whatever dialect it is,
each part is shorter than the cleaned expression, and cleaning makes nothing longer. So there are never
more calls open at a time than the expression has characters, and one.

This does not depend on what opens type arguments: it may be a single bracket as in all dialects, any
other text or none at all.

* `Text.dropArray?`: one round of dropping array brackets, with `Text.dropArrays_rounds`.
* `Dialect.call`: what one call gives and on what it calls, for any delimiter of type arguments.
* `Dialect.namesWithin`: taking apart with a bound on the calls that are open at a time.
* `Dialect.namesWithin_enough`: every bound above the length of the expression is enough.
-/

namespace ClassDiagram

namespace Text

/-! ## Rounds -/

/-- One round of dropping array brackets off the end. -/
def dropArray? (text : Text) : Option Text :=
  if isGroup '[' text then none else (beforeArray? text).map strip

/-- Each round makes the text shorter. -/
theorem length_lt_of_dropArray? {text next : Text} (h : dropArray? text = some next) :
    next.length < text.length := by
  rw [dropArray?] at h
  split at h
  · exact absurd h (by simp)
  · obtain ⟨before, hbefore, rfl⟩ := Option.map_eq_some_iff.mp h
    exact Nat.lt_of_le_of_lt (length_strip_le before) (length_lt_of_beforeArray? hbefore)

/-- Array brackets are dropped round by round, until there is no further round. -/
theorem dropArrays_rounds (text : Text) :
    Relation.ReflTransGen (fun text next => dropArray? text = some next) text text.dropArrays ∧
      dropArray? text.dropArrays = none := by
  fun_induction dropArrays text with
  | case1 text hgroup => exact ⟨.refl, if_pos hgroup⟩
  | case2 text hopen before hbefore ih =>
      have hround : dropArray? text = some (strip before) := by
        rw [dropArray?, if_neg hopen, hbefore, Option.map_some]
      exact ⟨.head hround ih.1, ih.2⟩
  | case3 text hopen hbefore =>
      refine ⟨.refl, ?_⟩
      rw [dropArray?, if_neg hopen, hbefore, Option.map_none]

end Text

namespace Dialect

variable (dialect : Dialect) (delimiter : Text)

/-! ## Calls -/

/-- Cleaning in a dialect in which `delimiter` opens type arguments. -/
def cleanBy (expr : Text) : Text :=
  let unquoted := Text.unquote (delimiter == ['[']) expr.strip
  let unsigned := unquoted.filter fun c => !(c == '?' || c == '!' || c == '*')
  (dialect.dropWords unsigned).strip.dropArrays

/-- The head of an expression and its type arguments, which `delimiter` opens. -/
def argumentsBy (expr : Text) : List Text × List Text :=
  match Text.indexOf? delimiter expr with
  | some (start + 1) =>
    let head := Text.strip (expr.take (start + 1))
    let close := (expr.closingAt? (start + 1)).getD expr.length
    if dialect.valueWrappers.contains (String.ofList head.simpleName) then ([], [])
    else (dialect.headName head, Text.splitTop ((expr.take close).drop (start + 2)))
  | _ => (if expr.isDottedName then [expr.simpleName] else [], [])

/-- One step in a dialect in which `delimiter` opens type arguments. Alternatives, groups and function
types are found without it. -/
def stepBy (expr : Text) : List Text × List Text :=
  if 1 < (dialect.splitAlternatives expr).length ∨ Text.isGroup '(' expr ∨ Text.isGroup '[' expr ∨
      (arrow? expr).isSome then dialect.step expr
  else dialect.argumentsBy delimiter expr

/-- One call: the names that it gives by itself, and the expressions on which it calls. -/
def call (expr : Text) : List Text × List Text :=
  if dialect.cleanBy delimiter expr = [] then ([], [])
  else dialect.stepBy delimiter (dialect.cleanBy delimiter expr)

/-- The names an expression uses, unless more than `depth` calls would be open at a time. -/
def namesWithin : Nat → Text → Option (List Text)
  | 0, _ => none
  | depth + 1, expr =>
    ((dialect.call delimiter expr).2.mapM (namesWithin depth)).map fun found =>
      (dialect.call delimiter expr).1 ++ found.flatten

/-! ## The delimiter of the dialect -/

theorem cleanBy_opener (expr : Text) : dialect.cleanBy [dialect.opener] expr = dialect.clean expr := by
  have hquoted : ([dialect.opener] == ['[']) = dialect.readsQuoted := by simp [readsQuoted]
  rw [cleanBy, hquoted]
  rfl

theorem stepBy_opener (expr : Text) : dialect.stepBy [dialect.opener] expr = dialect.step expr := by
  rw [stepBy]
  split
  · rfl
  · rename_i hlater
    simp only [not_or, Option.not_isSome_iff_eq_none] at hlater
    obtain ⟨halternatives, hround, hsquare, harrow⟩ := hlater
    simp only [step, if_neg halternatives, hround, hsquare, or_self, harrow]
    rfl

/-- With its own delimiter, a dialect calls on the parts of one step. -/
theorem call_opener (expr : Text) :
    dialect.call [dialect.opener] expr =
      if dialect.clean expr = [] then ([], []) else dialect.step (dialect.clean expr) := by
  rw [call, cleanBy_opener, stepBy_opener]

/-- The names that a dialect gives are those of a call and of the calls that it makes. -/
theorem names_eq_call (expr : Text) :
    dialect.names expr = (dialect.call [dialect.opener] expr).1 ++
      (dialect.call [dialect.opener] expr).2.flatMap dialect.names := by
  rw [call_opener]
  split
  · rename_i hempty
    rw [names, dif_pos hempty]
    rfl
  · rename_i hne
    exact TypeTree.names_of_clean hne

/-! ## Lengths -/

section Lengths

variable {dialect delimiter}

theorem length_cleanBy_le (expr : Text) :
    (dialect.cleanBy delimiter expr).length ≤ expr.length := by
  -- cleaning looks at the delimiter only to tell whether quoted text is kept
  let other : Dialect := { dialect with opener := if delimiter = ['['] then '[' else '<' }
  have hother : dialect.cleanBy delimiter expr = other.clean expr := by
    have hquoted : (delimiter == ['[']) = other.readsQuoted := by
      by_cases hsquare : delimiter = ['['] <;> simp [other, readsQuoted, hsquare]
    rw [cleanBy, hquoted]
    rfl
  rw [hother]
  exact other.length_clean_le expr

/-- Type arguments are shorter than the expression, also where no bracket closes them. -/
theorem length_lt_of_mem_argumentsBy {expr part : Text} (hne : expr ≠ [])
    (h : part ∈ (dialect.argumentsBy delimiter expr).2) : part.length < expr.length := by
  have hpos := List.length_pos_iff.mpr hne
  rw [argumentsBy] at h
  split at h
  · dsimp only at h
    split at h
    · exact absurd h List.not_mem_nil
    · have hpart := Text.length_le_of_mem_splitTop h
      rw [List.length_drop, List.length_take] at hpart
      omega
  · exact absurd h List.not_mem_nil

/-- Every expression on which a call calls is shorter than the cleaned expression. -/
theorem length_lt_of_mem_call {expr part : Text} (h : part ∈ (dialect.call delimiter expr).2) :
    part.length < (dialect.cleanBy delimiter expr).length := by
  rw [call] at h
  split at h
  · exact absurd h List.not_mem_nil
  · rename_i hne
    rw [stepBy] at h
    split at h
    · exact length_lt_of_mem_step hne h
    · exact length_lt_of_mem_argumentsBy hne h

end Lengths

/-! ## Bounds -/

section Bounds

variable {dialect delimiter}

theorem mapM_eq_some_map {read : Text → Option (List Text)} {found : Text → List Text}
    {parts : List Text} (h : ∀ part ∈ parts, read part = some (found part)) :
    parts.mapM read = some (parts.map found) := by
  induction parts with
  | nil => rfl
  | cons part parts ih =>
      obtain ⟨hpart, hothers⟩ := List.forall_mem_cons.mp h
      rw [List.mapM_cons, hpart, ih hothers]
      rfl

/-- If all further calls stay within a bound, the call stays within one more. -/
theorem namesWithin_succ {depth : Nat} {expr : Text} {found : Text → List Text}
    (h : ∀ part ∈ (dialect.call delimiter expr).2,
      dialect.namesWithin delimiter depth part = some (found part)) :
    dialect.namesWithin delimiter (depth + 1) expr =
      some ((dialect.call delimiter expr).1 ++ (dialect.call delimiter expr).2.flatMap found) := by
  rw [namesWithin, mapM_eq_some_map h, Option.map_some, List.flatMap_def]

/-- A bound above the length of an expression leaves one above the length of each further one. -/
theorem length_lt_of_call {depth : Nat} {expr : Text} (h : expr.length < depth + 1) {part : Text}
    (hpart : part ∈ (dialect.call delimiter expr).2) : part.length < depth := by
  have hshorter := length_lt_of_mem_call hpart
  have hclean : (dialect.cleanBy delimiter expr).length ≤ expr.length := length_cleanBy_le expr
  omega

/-- All bounds above the length of an expression give the same names. -/
theorem exists_namesWithin (expr : Text) :
    ∃ found, ∀ depth, expr.length < depth →
      dialect.namesWithin delimiter depth expr = some found := by
  induction hlength : expr.length using Nat.strongRecOn generalizing expr with
  | ind length ih =>
      have hparts : ∀ part ∈ (dialect.call delimiter expr).2, ∃ found, ∀ depth,
          part.length < depth → dialect.namesWithin delimiter depth part = some found := by
        intro part hpart
        have hshorter := length_lt_of_call (Nat.lt_succ_self expr.length) hpart
        exact ih part.length (hlength ▸ hshorter) part rfl
      choose! found hfound using hparts
      refine ⟨(dialect.call delimiter expr).1 ++ (dialect.call delimiter expr).2.flatMap found,
        fun depth hdepth => ?_⟩
      cases depth with
      | zero => exact absurd hdepth (Nat.not_lt_zero _)
      | succ depth =>
          exact namesWithin_succ fun part hpart =>
            hfound part hpart depth (length_lt_of_call (hlength ▸ hdepth) hpart)

/-- With its own delimiter, a dialect gives its names within every such bound. -/
theorem namesWithin_opener {depth : Nat} {expr : Text} (h : expr.length < depth) :
    dialect.namesWithin [dialect.opener] depth expr = some (dialect.names expr) := by
  induction depth generalizing expr with
  | zero => exact absurd h (Nat.not_lt_zero _)
  | succ depth ih =>
      rw [names_eq_call]
      exact namesWithin_succ fun part hpart => ih (length_lt_of_call h hpart)

end Bounds

/-- Taking apart comes to an end on every expression, in every dialect and whatever text opens its type
arguments. A cleaned expression is no longer than the expression, array brackets are dropped from it in
rounds of which each makes it shorter, and every further call is on a shorter expression than the
cleaned one. So one more call than the expression has characters is enough. With the delimiter of the
dialect, the calls are those of the dialect, and what comes out within this bound are its names. -/
theorem namesWithin_enough (expr : Text) :
    (dialect.cleanBy delimiter expr).length ≤ expr.length ∧
      (∀ text next, Text.dropArray? text = some next → next.length < text.length) ∧
      (∀ text : Text,
        Relation.ReflTransGen (fun text next => Text.dropArray? text = some next) text
            text.dropArrays ∧
          Text.dropArray? text.dropArrays = none) ∧
      (∀ part ∈ (dialect.call delimiter expr).2,
        part.length < (dialect.cleanBy delimiter expr).length) ∧
      (∃ found, ∀ depth, expr.length + 1 ≤ depth →
        dialect.namesWithin delimiter depth expr = some found) ∧
      dialect.cleanBy [dialect.opener] expr = dialect.clean expr ∧
      (dialect.call [dialect.opener] expr =
        if dialect.clean expr = [] then ([], []) else dialect.step (dialect.clean expr)) ∧
      ∀ depth, expr.length + 1 ≤ depth →
        dialect.namesWithin [dialect.opener] depth expr = some (dialect.names expr) :=
  ⟨length_cleanBy_le expr, fun _ _ h => Text.length_lt_of_dropArray? h, Text.dropArrays_rounds,
    fun _ h => length_lt_of_mem_call h, exists_namesWithin expr, dialect.cleanBy_opener expr,
    dialect.call_opener expr, fun _ h => namesWithin_opener h⟩

/-- Four calls are open when the innermost name is read, and three are not enough. -/
example : (typeScript.namesWithin ['<'] 4 "Crate<(Lid | Rim)[]>".toList).isSome = true ∧
    typeScript.namesWithin ['<'] 3 "Crate<(Lid | Rim)[]>".toList = none := by decide +kernel

end Dialect

end ClassDiagram
