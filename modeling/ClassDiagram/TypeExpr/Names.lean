import ClassDiagram.Model.NameSet
import ClassDiagram.Scan.Split
import ClassDiagram.TypeExpr.Clean

/-!
# The names a type expression uses

`Dialect.names` takes a type expression apart: alternatives, bracketed groups such as tuples,
function types, and a head with type arguments. What is left are dotted names, of which the last
segment is the name used.

* Wrappers of the dialect are passed over, their arguments are not.
* Each step reads a strictly shorter expression, so taking apart always ends.
-/

namespace ClassDiagram

namespace Text

/-- A name that may hold dollar signs. -/
def isDollarName : Text → Bool
  | [] => false
  | c :: rest => isDollarNameStart c && rest.all isDollarNameChar

/-- Names joined by dots. -/
def isDottedName (text : Text) : Bool := (text.cut (· == '.')).all isDollarName

/-- What is left of the parameter part of a function type behind its own type parameters. -/
def afterTypeParameters (text : Text) : Text :=
  if text.head? = some '<' then
    match closing? text with
    | some place => strip (text.drop (place + 1))
    | none => []
  else text

/-- The parts of a group, split at commas. -/
def groupMembers (text : Text) : List Text := splitTop (text.dropLast.drop 1)

/-- The annotations of a parenthesised parameter list; nothing for any other text. -/
def annotations (params : Text) : List Text :=
  if isGroup '(' params then
    (groupMembers params).filterMap fun param =>
      (topLevel? [':'] param).map fun colon => param.drop (colon + 1)
  else []

end Text

namespace Dialect

/-- Splits at the signs between alternatives. -/
def splitAlternatives (dialect : Dialect) (expr : Text) : List Text :=
  expr.splitTop (fun c => dialect.alternatives.contains c)

/-- Whether a member of a group is an alternative or a function type, and so no name with a type
before it. -/
def isCompound (dialect : Dialect) (member : Text) : Bool :=
  member.includes ['=', '>'] || (dialect.splitAlternatives member).length > 1

/-- The type expression in a member of a group: of a named tuple element only the type. -/
def memberType (dialect : Dialect) (member : Text) : Text :=
  match member.words with
  | first :: _ :: _ =>
    -- `Point origin` names an element, `Map<K, V>` and `A | B` hold a blank without a name
    if !member.contains '<' && !dialect.isCompound member then first else member
  | _ => member

/-- The place of the arrow of a function type. -/
def arrow? (expr : Text) : Option Nat :=
  if expr.head? = some '(' ∨ expr.head? = some '<' then
    (Text.topLevel? ['=', '>'] expr).filter (0 < ·)
  else none

/-- The head, if it names a type that is no wrapper. -/
def headName (dialect : Dialect) (head : Text) : List Text :=
  if head.isDottedName && !dialect.containers.contains (String.ofList head.simpleName) then
    [head.simpleName]
  else []

/-- The parts of a cleaned expression that are type expressions themselves, with the name at its
head if it has one. -/
def step (dialect : Dialect) (expr : Text) : List Text × List Text :=
  let alternatives := dialect.splitAlternatives expr
  if 1 < alternatives.length then ([], alternatives)
  else if Text.isGroup '(' expr ∨ Text.isGroup '[' expr then
    ([], expr.groupMembers.map dialect.memberType)
  else
    match arrow? expr with
    | some arrow =>
      let params := Text.afterTypeParameters (Text.strip (expr.take arrow))
      ([], expr.drop (arrow + 2) :: params.annotations)
    | none =>
      match Text.indexOf? [dialect.opener] expr with
      -- an opening bracket at the very start has no head before it
      | some (start + 1) =>
        let head := Text.strip (expr.take (start + 1))
        -- arguments that are not closed go on to the end
        let close := (expr.closingAt? (start + 1)).getD expr.length
        if dialect.valueWrappers.contains (String.ofList head.simpleName) then ([], [])
        else (dialect.headName head, Text.splitTop ((expr.take close).drop (start + 2)))
      | _ => (if expr.isDottedName then [expr.simpleName] else [], [])

/-! ### Every part is shorter -/

theorem length_memberType_le (dialect : Dialect) (member : Text) :
    (dialect.memberType member).length ≤ member.length := by
  unfold memberType
  split
  · rename_i first second rest h
    split
    · exact Text.length_le_of_mem_words first (by rw [h]; simp)
    · exact Nat.le_refl _
  · exact Nat.le_refl _

theorem lt_of_indexOf? {pattern text : Text} (hpattern : pattern ≠ []) {place : Nat}
    (h : Text.indexOf? pattern text = some place) : place < text.length := by
  induction text generalizing place with
  | nil =>
    rw [Text.indexOf?] at h
    cases pattern with
    | nil => exact absurd rfl hpattern
    | cons _ _ => simp at h
  | cons c rest ih =>
    rw [Text.indexOf?] at h
    split at h
    · simp only [Option.some.injEq] at h
      simp [← h]
    · obtain ⟨k, hk, rfl⟩ := Option.map_eq_some_iff.1 h
      have := ih hk
      simp only [List.length_cons]
      omega

theorem length_lt_of_mem_groupMembers {text member : Text} (h : member ∈ text.groupMembers)
    (hpos : 0 < text.length) : member.length < text.length := by
  have := Text.length_le_of_mem_splitTop h
  simp only [List.length_drop, List.length_dropLast] at this
  omega

theorem length_lt_of_mem_annotations {params part : Text} (h : part ∈ params.annotations) :
    part.length < params.length := by
  unfold Text.annotations at h
  split at h
  · rename_i hgroup
    have hpos : 0 < params.length := by
      cases params with
      | nil => simp [Text.isGroup] at hgroup
      | cons _ _ => simp
    obtain ⟨param, hparam, hpart⟩ := List.mem_filterMap.1 h
    obtain ⟨colon, _, rfl⟩ := Option.map_eq_some_iff.1 hpart
    have := length_lt_of_mem_groupMembers hparam hpos
    simp only [List.length_drop]
    omega
  · simp at h

theorem length_afterTypeParameters_le (text : Text) :
    (Text.afterTypeParameters text).length ≤ text.length := by
  unfold Text.afterTypeParameters
  split
  · split
    · exact Nat.le_trans (Text.length_strip_le _) (by simp)
    · simp
  · exact Nat.le_refl _

/-- Each part of an expression that is read further is shorter than the expression. -/
theorem length_lt_of_mem_step {dialect : Dialect} {expr part : Text} (hne : expr ≠ [])
    (h : part ∈ (dialect.step expr).2) : part.length < expr.length := by
  have hpos := List.length_pos_iff.2 hne
  simp only [step] at h
  split at h
  · rename_i hmany
    exact Text.length_lt_of_mem_splitTop h hmany
  split at h
  · obtain ⟨member, hmember, rfl⟩ := List.mem_map.1 h
    exact Nat.lt_of_le_of_lt (length_memberType_le _ _)
      (length_lt_of_mem_groupMembers hmember hpos)
  split at h
  · rename_i arrow _
    rcases List.mem_cons.1 h with rfl | h
    · simp only [List.length_drop]
      omega
    · have h1 := length_lt_of_mem_annotations h
      have h2 := length_afterTypeParameters_le (Text.strip (expr.take arrow))
      have h3 := Text.length_strip_le (expr.take arrow)
      have h4 : (expr.take arrow).length ≤ expr.length := (List.take_sublist _ _).length_le
      omega
  split at h
  · rename_i start hstart
    split at h
    · simp at h
    · have h1 := Text.length_le_of_mem_splitTop h
      have h2 := lt_of_indexOf? (by simp) hstart
      simp only [List.length_drop, List.length_take] at h1
      omega
  · simp at h

/-- The names a type expression uses, in reading order. -/
def names (dialect : Dialect) (expr : Text) : List Text :=
  let cleaned := dialect.clean expr
  if hne : cleaned = [] then []
  else
    (dialect.step cleaned).1 ++ (dialect.step cleaned).2.attach.flatMap fun ⟨part, h⟩ =>
      have : part.length < expr.length :=
        Nat.lt_of_lt_of_le (length_lt_of_mem_step hne h) (dialect.length_clean_le expr)
      names dialect part
termination_by expr.length

/-- The set of the names a type expression uses. -/
def nameSet (dialect : Dialect) (expr : Text) : NameSet :=
  .ofList ((dialect.names expr).map String.ofList)

/-- The names used that are not built in, in ascending order. -/
def usedNames (dialect : Dialect) (expr : Text) : List String :=
  (dialect.nameSet expr).toList.filter (fun name => !dialect.isPrimitive name)

end Dialect

end ClassDiagram
