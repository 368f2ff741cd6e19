import ClassDiagram.Proofs.TypeExpr.Names
import Mathlib.Data.List.Chain

/-!
# Lines of a union

A union of TypeScript may go over several lines, broken before or behind its bars. A line of it is
bars and operands in turn, and may begin or end with a bar.

* `UnionToken.splitAlternatives_line`: the operands of a line are found again.
* `UnionToken.mem_names_line`: the names that a line uses, if it is read for itself. Where several
  operands stand in it, these are theirs. An operand that is alone with a bar is no name any more, and
  behind a bar not even the head of an application is.
-/

namespace ClassDiagram

open Text

/-! ## Operands -/

/-- An operand of a union: a name, applied to arguments or not. -/
structure Operand where
  head : DottedName .typeScript
  args : List (TypeTree .typeScript) := []

namespace Operand

/-- An operand as a type expression. -/
def tree : Operand → TypeTree .typeScript
  | ⟨head, []⟩ => .named head
  | ⟨head, first :: others⟩ => .applied head first others

/-- An operand as it is written. -/
def text (operand : Operand) : Text := operand.tree.plain

/-- The names in type position. -/
def used (operand : Operand) : List String := operand.tree.used

/-- What stands behind the head of an operand. -/
def behind (operand : Operand) : Text :=
  if operand.args = [] then []
  else '<' :: (join [',', ' '] (operand.args.map TypeTree.plain) ++ ['>'])

variable (operand : Operand)

/-- An operand is its head with its arguments behind it. -/
theorem text_eq_append : operand.text = operand.head.text ++ operand.behind := by
  obtain ⟨head, args⟩ := operand
  cases args with
  | nil => exact (List.append_nil _).symm
  | cons first others => exact TypeTree.plain_applied head first others

/-- An operand is a single alternative. -/
theorem single : Nested (TypeTree.Single .typeScript) operand.text := by
  obtain ⟨head, args⟩ := operand
  cases args with
  | nil => exact head.nested fun _ => TypeTree.single_of_dotted Dialect.regular_typeScript
  | cons first others =>
      exact TypeTree.nested_applied Dialect.regular_typeScript fun arg _ =>
        (TypeTree.nested Dialect.regular_typeScript arg).inside

theorem tidy : Tidy operand.text := TypeTree.tidy Dialect.regular_typeScript operand.tree false

/-- An operand is no array, nullable or quoted type. -/
theorem bare_tree : operand.tree.bare = operand.tree := by
  obtain ⟨head, args⟩ := operand
  cases args <;> rfl

/-- The names of an operand are that of its head, unless it is a wrapper, and those of its arguments. -/
theorem used_eq : operand.used =
    (if operand.args ≠ [] ∧ Dialect.typeScript.containers.contains operand.head.last then []
      else [operand.head.last]) ++ operand.args.flatMap TypeTree.used := by
  obtain ⟨head, args⟩ := operand
  cases args with
  | nil => rfl
  | cons first others =>
      show TypeTree.used (.applied head first others) = _
      rw [TypeTree.used, if_neg (by simp [Dialect.typeScript]), TypeTree.usedByAll_eq_flatMap]
      simp

end Operand

/-! ## Lines -/

/-- A bar or an operand of a union. -/
inductive UnionToken where
  | bar
  | operand (value : Operand)

namespace UnionToken

/-- A token as it is written. -/
def text : UnionToken → Text
  | bar => ['|']
  | operand value => value.text

/-- The operand that a token is. -/
def operand? : UnionToken → Option Operand
  | bar => none
  | operand value => some value

/-- Tokens on one line. -/
def line (tokens : List UnionToken) : Text := join [' '] (tokens.map text)

/-- The operands among some tokens. -/
def operands (tokens : List UnionToken) : List Operand := tokens.filterMap operand?

/-- Of two tokens side by side, one is a bar. -/
def Alternate (tokens : List UnionToken) : Prop :=
  tokens.IsChain fun left right => left = bar ∨ right = bar

/-- There is a space between the tokens of a line. -/
theorem line_cons_cons (first second : UnionToken) (rest : List UnionToken) :
    line (first :: second :: rest) = first.text ++ ' ' :: line (second :: rest) := by
  rw [line, List.map_cons, List.map_cons, join, List.intercalate_cons_cons, List.append_assoc]
  rfl

theorem line_singleton (token : UnionToken) : line [token] = token.text := by
  rw [line, List.map_singleton, join, List.intercalate_singleton]

/-- A token is added to a line behind a space. -/
theorem line_concat {tokens : List UnionToken} (hne : tokens ≠ []) (token : UnionToken) :
    line (tokens ++ [token]) = line tokens ++ ' ' :: token.text := by
  induction tokens with
  | nil => exact absurd rfl hne
  | cons first rest ih =>
      cases rest with
      | nil => rw [List.singleton_append, line_cons_cons, line_singleton, line_singleton]
      | cons second others =>
          rw [List.cons_append, List.cons_append, line_cons_cons, ← List.cons_append,
            ih (List.cons_ne_nil _ _), line_cons_cons, List.append_assoc, List.cons_append]

/-- Each token of a line but the first has a space before it. -/
theorem line_cons (token : UnionToken) (backs : List UnionToken) :
    line (token :: backs) = token.text ++ backs.flatMap fun back => ' ' :: back.text := by
  induction backs generalizing token with
  | nil => rw [line_singleton, List.flatMap_nil, List.append_nil]
  | cons back rest ih => rw [line_cons_cons, ih, List.flatMap_cons, List.cons_append]

/-- What stands around a token of a line. -/
theorem line_append_cons (fronts : List UnionToken) (token : UnionToken)
    (backs : List UnionToken) :
    line (fronts ++ token :: backs) =
      fronts.flatMap (fun front => front.text ++ [' ']) ++
        (token.text ++ backs.flatMap fun back => ' ' :: back.text) := by
  induction fronts with
  | nil => exact line_cons token backs
  | cons front rest ih =>
      have hcons : line (front :: (rest ++ token :: backs)) =
          front.text ++ ' ' :: line (rest ++ token :: backs) := by
        cases hrest : rest ++ token :: backs with
        | nil => exact absurd hrest (by simp)
        | cons second others => exact line_cons_cons front second others
      rw [List.cons_append, hcons, ih, List.flatMap_cons]
      simp

/-- A bar is one word, and an operand is tidy. -/
theorem tidy_text (token : UnionToken) : Tidy token.text := by
  cases token with
  | bar => exact .word (by decide) (forall_chars (by decide))
  | operand value => exact value.tidy

/-- No token has a comma outside of brackets. -/
theorem nested_text (token : UnionToken) : Nested (· ≠ ',') token.text := by
  cases token with
  | bar => exact .of_inert (forall_chars (by decide))
  | operand value => exact value.single.mono fun _ hc => hc.1

/-- A token is spelled with names and the signs of types. -/
theorem spelled_text (token : UnionToken) :
    Spelled isDollarNameChar TypeTree.typeSigns token.text := by
  cases token with
  | bar => exact .cons (by decide) .nil
  | operand value => exact value.tree.spelled Dialect.regular_typeScript

section Line

variable {tokens : List UnionToken}

/-- A line of a union is tidy. -/
theorem tidy_line (hne : tokens ≠ []) : Tidy (line tokens) := by
  refine join_induct (fun h => absurd (List.map_eq_nil_iff.mp h) hne) ?_
    fun item rest hitem hrest => hitem.spaced hrest
  intro item hitem
  obtain ⟨token, _, rfl⟩ := List.mem_map.mp hitem
  exact token.tidy_text

/-- A line of a union has no comma outside of brackets. -/
theorem nested_line : Nested (· ≠ ',') (line tokens) := by
  refine .join (fun item hitem => ?_) (.of_inert (forall_chars (by decide)))
  obtain ⟨token, _, rfl⟩ := List.mem_map.mp hitem
  exact token.nested_text

theorem spelled_line : Spelled isDollarNameChar TypeTree.typeSigns (line tokens) :=
  .join (.cons (by decide) .nil) (List.forall_mem_map.mpr fun token _ => token.spelled_text)

end Line

/-! ## Alternatives -/

section Alternatives

/-- The signs between alternatives are no brackets. -/
theorem separates_inert (c : Char) (hc : Dialect.typeScript.alternatives.contains c = true) :
    isInert c = true := by
  rcases Dialect.regular_typeScript.alternatives c (by simpa using hc) with rfl | rfl <;> decide

/-- A bar at the front is no alternative. -/
theorem splitAlternatives_bar {behind : Text} (hbehind : Unquoted behind) :
    Dialect.typeScript.splitAlternatives ('|' :: behind) =
      Dialect.typeScript.splitAlternatives behind := by
  have hempty : splitTop [] (fun c => Dialect.typeScript.alternatives.contains c) = [] := by
    decide +kernel
  have hnone : Nested (fun _ => True) [] := .nil
  have hsplit := splitTop_append hnone hbehind separates_inert
    (show Dialect.typeScript.alternatives.contains '|' = true by decide) (by decide)
  rw [hempty] at hsplit
  exact hsplit

/-- A space before alternatives is trimmed off. -/
theorem splitAlternatives_space {behind : Text} (hbehind : Unquoted behind) :
    Dialect.typeScript.splitAlternatives (' ' :: behind) =
      Dialect.typeScript.splitAlternatives behind :=
  splitTop_space_cons hbehind (by decide)

/-- An operand between spaces is one alternative. -/
theorem splitTop_operand (value : Operand) (count : Nat) :
    Nested (TypeTree.Single .typeScript) (value.text ++ List.replicate count ' ') ∧
      Dialect.typeScript.splitAlternatives (value.text ++ List.replicate count ' ') =
        [value.text] := by
  have hspaces : Nested (TypeTree.Single .typeScript) (List.replicate count ' ') := by
    refine .of_inert fun c hc => ?_
    rw [List.eq_of_mem_replicate hc]
    exact ⟨by decide, by decide, by decide, by decide⟩
  have hnested := value.single.append hspaces
  refine ⟨hnested, splitTop_nested hnested (fun c hc => by simpa using hc.2) value.tidy
    (value.tidy.strip_before fun c hc => ?_)⟩
  rw [List.eq_of_mem_replicate hc]
  decide

/-- The operands of a line are found again. -/
theorem splitAlternatives_line {tokens : List UnionToken} (h : Alternate tokens) :
    Dialect.typeScript.splitAlternatives (line tokens) = (operands tokens).map Operand.text := by
  have hempty : Dialect.typeScript.splitAlternatives [] = [] := by decide +kernel
  induction tokens with
  | nil => exact hempty
  | cons first rest ih =>
      obtain ⟨hfirst, hrest⟩ := List.isChain_cons.mp h
      cases rest with
      | nil =>
          rw [line_singleton]
          cases first with
          | bar => exact (splitAlternatives_bar (List.forall_mem_nil _)).trans hempty
          | operand value =>
              have hone := (splitTop_operand value 0).2
              rw [List.replicate_zero, List.append_nil] at hone
              exact hone
      | cons second others =>
          have hlater : Unquoted (line (second :: others)) := nested_line.unquoted
          rw [line_cons_cons]
          cases first with
          | bar =>
              have hbehind : Unquoted (' ' :: line (second :: others)) :=
                List.forall_mem_cons.mpr ⟨by decide, hlater⟩
              show Dialect.typeScript.splitAlternatives ('|' :: ' ' :: line (second :: others)) = _
              rw [splitAlternatives_bar hbehind, splitAlternatives_space hlater, ih hrest]
              rfl
          | operand value =>
              -- the bar that has to follow cuts the operand off
              obtain rfl : second = bar := (hfirst second rfl).resolve_left nofun
              obtain ⟨behind, hbehind⟩ : ∃ behind, line (bar :: others) = '|' :: behind :=
                ⟨_, line_cons bar others⟩
              have hunquoted : Unquoted behind := fun c hc =>
                hlater c (by rw [hbehind]; exact List.mem_cons_of_mem _ hc)
              obtain ⟨hpadded, hone⟩ := splitTop_operand value 1
              have hrow := ih hrest
              rw [hbehind, splitAlternatives_bar hunquoted] at hrow
              have htext : value.text ++ ' ' :: line (bar :: others) =
                  (value.text ++ [' ']) ++ '|' :: behind := by
                rw [hbehind, List.append_assoc]
                rfl
              have hcut : Dialect.typeScript.splitAlternatives ((value.text ++ [' ']) ++ '|' :: behind) =
                  Dialect.typeScript.splitAlternatives (value.text ++ [' ']) ++
                    Dialect.typeScript.splitAlternatives behind :=
                splitTop_append hpadded hunquoted separates_inert (by decide) (by decide)
              show Dialect.typeScript.splitAlternatives (value.text ++ ' ' :: line (bar :: others)) = _
              rw [htext, hcut, hrow]
              exact congrArg (· ++ (operands (bar :: others)).map Operand.text) hone

end Alternatives

/-! ## Cleaning -/

section Clean

variable {tokens : List UnionToken}

/-- No word of a line of a union is dropped. -/
theorem keeps_line : Dialect.typeScript.Keeps (line tokens) := by
  refine join_induct (fun _ => .nil Dialect.regular_typeScript) ?_
    fun item rest hitem hrest => hitem.spaced hrest
  intro item hitem
  obtain ⟨token, _, rfl⟩ := List.mem_map.mp hitem
  cases token with
  | bar => exact .of_signs Dialect.regular_typeScript (forall_chars (by decide))
  | operand value => exact TypeTree.keeps_plain Dialect.regular_typeScript value.tree

/-- A line does not end in array brackets. -/
theorem beforeArray?_line (hne : tokens ≠ []) : beforeArray? (line tokens) = none := by
  have hlast : ∀ (front : Text) (token : UnionToken), beforeArray? (front ++ token.text) = none := by
    intro front token
    cases token with
    | bar => exact beforeArray?_concat front (by decide)
    | operand value =>
        have hbare := TypeTree.beforeArray?_bare value.tree front
        rwa [value.bare_tree] at hbare
  obtain ⟨front, last, rfl⟩ : ∃ front last, tokens = front ++ [last] :=
    ⟨_, _, (List.dropLast_append_getLast hne).symm⟩
  cases front with
  | nil =>
      rw [List.nil_append, line_singleton]
      exact hlast [] last
  | cons first others =>
      rw [line_concat (List.cons_ne_nil _ _), List.append_cons]
      exact hlast _ last

/-- The first character of a line. -/
theorem head?_line_ne {c : Char} (hname : isDollarNameChar c = false) (hdot : c ≠ '.')
    (hbar : c ≠ '|') : (line tokens).head? ≠ some c := by
  have hfirst : ∀ (token : UnionToken) (behind : Text), (token.text ++ behind).head? ≠ some c := by
    intro token behind hhead
    cases token with
    | bar => exact hbar (Option.some.inj hhead).symm
    | operand value =>
        obtain ⟨d, rest, htext, hd⟩ := value.head.exists_head
        rw [text, value.text_eq_append, htext, List.append_assoc, List.cons_append,
          List.head?_cons, Option.some.injEq] at hhead
        rw [hhead] at hd
        rcases hd with hd | hd
        · exact Bool.false_ne_true (hname.symm.trans hd)
        · exact hdot hd
  cases tokens with
  | nil => exact nofun
  | cons first rest =>
      cases rest with
      | nil =>
          rw [line_singleton]
          simpa using hfirst first []
      | cons second others =>
          rw [line_cons_cons]
          exact hfirst first _

/-- A line is clean. -/
theorem clean_line (hne : tokens ≠ []) {expr : Text} (hexpr : strip expr = line tokens) :
    Dialect.typeScript.clean expr = line tokens := by
  have hkept : ∀ c ∈ line tokens, Dialect.isKept c = true :=
    spelled_line.forall_mem (fun _ => TypeTree.isKept_of_nameChar) (forall_chars (by decide))
  exact Dialect.clean_of_kept hkept hexpr (tidy_line hne) keeps_line (Or.inr (beforeArray?_line hne))

end Clean

/-! ## Names -/

/-- Whether some tokens begin with a bar. -/
def startsWithBar : List UnionToken → Bool
  | bar :: _ => true
  | _ => false

/-- The names that a line uses, if it is read for itself. Several operands are taken apart at the bars.
A single one is taken with the bars around it: with them it is no name, so that at most its arguments
count behind a bar, and before one its head only counts if it has arguments. -/
def lineUsed (tokens : List UnionToken) : List String :=
  match operands tokens with
  | [single] =>
    if startsWithBar tokens then single.args.flatMap TypeTree.used
    else if tokens.length = 1 ∨ single.args ≠ [] then single.used
    else []
  | several => several.flatMap Operand.used

section Names

variable {tokens : List UnionToken}

/-- What a line uses, its operands do. -/
theorem mem_used_of_mem_lineUsed {name : String} (h : name ∈ lineUsed tokens) :
    ∃ operand ∈ operands tokens, name ∈ operand.used := by
  unfold lineUsed at h
  split at h
  · rename_i single hsingle
    rw [hsingle]
    refine ⟨single, List.mem_singleton_self _, ?_⟩
    split at h
    · rw [single.used_eq]
      exact List.mem_append_right _ h
    · split at h
      · exact h
      · exact absurd h List.not_mem_nil
  · exact List.mem_flatMap.mp h

/-- Without operands there are only bars. -/
theorem eq_bar_of_operands_eq_nil (h : operands tokens = []) : ∀ token ∈ tokens, token = bar := by
  intro token htoken
  have hnone := List.filterMap_eq_nil_iff.mp h token htoken
  cases token with
  | bar => rfl
  | operand value => exact absurd hnone nofun

/-- A line without operands has a bar. -/
theorem bar_mem_of_operands_eq_nil (h : operands tokens = []) (hne : tokens ≠ []) :
    bar ∈ tokens := by
  obtain ⟨token, htoken⟩ := List.exists_mem_of_ne_nil tokens hne
  exact eq_bar_of_operands_eq_nil h token htoken ▸ htoken

/-- The operands of a line stand before, at and behind an operand. -/
theorem operands_append_cons (fronts : List UnionToken) (value : Operand)
    (backs : List UnionToken) :
    operands (fronts ++ operand value :: backs) = operands fronts ++ value :: operands backs := by
  rw [operands, List.filterMap_append]
  rfl

/-- Types use what their plain texts name. -/
theorem mem_names_all (types : List (TypeTree .typeScript)) (name : String) :
    name ∈ ((types.map TypeTree.plain).flatMap Dialect.typeScript.names).map String.ofList ↔
      name ∈ types.flatMap TypeTree.used := by
  rw [List.map_flatMap, List.flatMap_map, List.mem_flatMap, List.mem_flatMap]
  refine exists_congr fun type => and_congr_right fun _ => ?_
  have hstrip : strip type.plain = type.plain :=
    (TypeTree.tidy Dialect.regular_typeScript type false).strip
  exact TypeTree.mem_names Dialect.regular_typeScript hstrip name

/-- A line is no group and no function type. -/
theorem line_first (tokens : List UnionToken) :
    ¬ (isGroup '(' (line tokens) = true ∨ isGroup '[' (line tokens) = true) ∧
      Dialect.arrow? (line tokens) = none := by
  have hparen : (line tokens).head? ≠ some '(' :=
    head?_line_ne (by decide) (by decide) (by decide)
  have hsquare : (line tokens).head? ≠ some '[' :=
    head?_line_ne (by decide) (by decide) (by decide)
  have hangle : (line tokens).head? ≠ some '<' :=
    head?_line_ne (by decide) (by decide) (by decide)
  constructor
  · simp [isGroup, hparen, hsquare]
  · simp [Dialect.arrow?, hparen, hangle]

/-- A line of names without arguments holds no angle bracket. -/
theorem angle_not_mem_line (h : ∀ value ∈ operands tokens, value.args = []) :
    '<' ∉ line tokens := by
  intro hmem
  rcases mem_join hmem with hmem | ⟨item, hitem, hmem⟩
  · exact absurd hmem (by decide)
  · obtain ⟨token, htoken, rfl⟩ := List.mem_map.mp hitem
    cases token with
    | bar => exact absurd hmem (by decide)
    | operand value =>
        have hargs := h value (List.mem_filterMap.mpr ⟨_, htoken, rfl⟩)
        rw [text, value.text_eq_append, Operand.behind, if_pos hargs, List.append_nil] at hmem
        exact value.head.not_mem (by decide) (by decide) hmem

/-- A bar is written as one. -/
theorem bar_mem_line (h : bar ∈ tokens) : '|' ∈ line tokens := by
  obtain ⟨fronts, backs, rfl⟩ := List.append_of_mem h
  rw [line_append_cons]
  simp [text]

/-- The names of a line are those of its first step and those of what is left to read. -/
theorem names_line (hne : tokens ≠ []) {expr : Text} (hexpr : strip expr = line tokens) :
    Dialect.typeScript.names expr = (Dialect.typeScript.step (line tokens)).1 ++
      (Dialect.typeScript.step (line tokens)).2.flatMap Dialect.typeScript.names := by
  have hclean := clean_line hne hexpr
  rw [TypeTree.names_of_clean (by rw [hclean]; exact (tidy_line hne).ne_nil), hclean]

/-- A line with several operands is taken apart at its bars. -/
theorem step_of_several (h : Alternate tokens) (hmany : 1 < (operands tokens).length) :
    Dialect.typeScript.step (line tokens) = ([], (operands tokens).map Operand.text) := by
  unfold Dialect.step
  rw [splitAlternatives_line h]
  exact if_pos (by simpa using hmany)

/-- A line that is no name and has no arguments names nothing. -/
theorem step_of_bar (h : Alternate tokens) (hsingle : ¬ 1 < (operands tokens).length)
    (hangle : '<' ∉ line tokens) (hbar : '|' ∈ line tokens) :
    Dialect.typeScript.step (line tokens) = ([], []) := by
  have hindex : indexOf? [Dialect.typeScript.opener] (line tokens) = none :=
    indexOf?_of_not_mem hangle
  rw [← List.length_map Operand.text, ← splitAlternatives_line h] at hsingle
  unfold Dialect.step
  rw [if_neg hsingle, if_neg (line_first tokens).1, (line_first tokens).2, hindex,
    isDottedName_of_sign hbar (by decide) (by decide)]
  rfl

section Single

variable {fronts backs : List UnionToken} {single : Operand} (hfronts : operands fronts = [])
  (hbacks : operands backs = [])

include hfronts hbacks in
/-- Among bars alone, there is a single operand. -/
theorem operands_single : operands (fronts ++ operand single :: backs) = [single] := by
  rw [operands_append_cons, hfronts, hbacks]
  rfl

include hfronts in
/-- A line of a single operand starts with a bar if one stands before it. -/
theorem startsWithBar_single :
    startsWithBar (fronts ++ operand single :: backs) = !fronts.isEmpty := by
  cases fronts with
  | nil => rfl
  | cons front others =>
      rw [eq_bar_of_operands_eq_nil hfronts front List.mem_cons_self]
      rfl

include hfronts hbacks

/-- Of a single operand among bars, the arguments are read as ever. The bars before it count to its
head. -/
theorem step_of_applied (h : Alternate (fronts ++ operand single :: backs))
    (hargs : single.args ≠ []) :
    Dialect.typeScript.step (line (fronts ++ operand single :: backs)) =
      (Dialect.typeScript.headName (line (fronts ++ [operand { head := single.head }])),
        single.args.map TypeTree.plain) := by
  have hhead : line (fronts ++ [operand { head := single.head }]) =
      fronts.flatMap (fun front => front.text ++ [' ']) ++ single.head.text := by
    rw [line_append_cons, List.flatMap_nil, List.append_nil]
    rfl
  have hbars : ∀ token ∈ fronts ++ backs, ∀ c ∈ token.text, c = '|' := by
    intro token htoken c hc
    obtain rfl : token = bar := (List.mem_append.mp htoken).elim
      (eq_bar_of_operands_eq_nil hfronts token) (eq_bar_of_operands_eq_nil hbacks token)
    exact List.mem_singleton.mp hc
  -- before the arguments there are only bars and the head, in which no bracket opens
  have hopener : Dialect.typeScript.opener ∉ line (fronts ++ [operand { head := single.head }]) := by
    rw [hhead]
    intro hmem
    rcases List.mem_append.mp hmem with hmem | hmem
    · obtain ⟨token, htoken, hmem⟩ := List.mem_flatMap.mp hmem
      rcases List.mem_append.mp hmem with hmem | hmem
      · exact absurd (hbars token (List.mem_append_left _ htoken) _ hmem) (by decide)
      · exact absurd hmem (by decide)
    · exact single.head.not_mem (by decide) (by decide) hmem
  have hbehind : Unquoted (backs.flatMap fun back => ' ' :: back.text) := by
    intro c hc
    obtain ⟨token, htoken, hc⟩ := List.mem_flatMap.mp hc
    rcases List.mem_cons.mp hc with rfl | hc
    · decide
    · rw [hbars token (List.mem_append_right _ htoken) c hc]
      decide
  have hexpr : line (fronts ++ operand single :: backs) =
      line (fronts ++ [operand { head := single.head }]) ++ Dialect.typeScript.opener ::
        (join [',', ' '] (single.args.map TypeTree.plain) ++ Dialect.typeScript.closer ::
          backs.flatMap fun back => ' ' :: back.text) := by
    rw [line_append_cons, text, single.text_eq_append, Operand.behind, if_neg hargs, hhead]
    simp [Dialect.closer, Dialect.typeScript]
  have hsingle : ¬ 1 <
      (Dialect.typeScript.splitAlternatives (line (fronts ++ operand single :: backs))).length := by
    rw [splitAlternatives_line h, operands_single hfronts hbacks]
    exact Nat.lt_irrefl 1
  rw [TypeTree.step_applied Dialect.regular_typeScript (tidy_line (by simp)) hopener hbehind
    (TypeTree.entry_plain Dialect.regular_typeScript single.args) hexpr hsingle (line_first _),
    if_neg (by simp [Dialect.typeScript])]

/-- A name with a bar beside it is no name. -/
theorem lineUsed_of_named (hargs : single.args = []) (hbeside : ¬ (fronts = [] ∧ backs = [])) :
    lineUsed (fronts ++ operand single :: backs) = [] := by
  have hlength : (fronts ++ operand single :: backs).length ≠ 1 := by
    simp only [← List.length_eq_zero_iff] at hbeside
    simp only [List.length_append, List.length_cons]
    omega
  have hno : ¬ ((fronts ++ operand single :: backs).length = 1 ∨ single.args ≠ []) :=
    fun hor => hor.elim hlength (absurd hargs)
  rw [lineUsed, operands_single hfronts hbacks]
  show (if _ then single.args.flatMap TypeTree.used else if _ then _ else _) = _
  rw [if_neg hno, hargs, List.flatMap_nil, ite_self]

/-- A single name beside bars is not read. -/
theorem step_of_named (h : Alternate (fronts ++ operand single :: backs)) (hargs : single.args = [])
    (hbeside : ¬ (fronts = [] ∧ backs = [])) :
    Dialect.typeScript.step (line (fronts ++ operand single :: backs)) = ([], []) := by
  have hone : operands (fronts ++ operand single :: backs) = [single] :=
    operands_single hfronts hbacks
  have hbar : bar ∈ fronts ++ operand single :: backs := by
    rcases not_and_or.mp hbeside with hsome | hsome
    · exact List.mem_append_left _ (bar_mem_of_operands_eq_nil hfronts hsome)
    · exact List.mem_append_right _
        (List.mem_cons_of_mem _ (bar_mem_of_operands_eq_nil hbacks hsome))
  have hangle : '<' ∉ line (fronts ++ operand single :: backs) :=
    angle_not_mem_line (by simpa [hone] using hargs)
  exact step_of_bar h (by simp [hone]) hangle (bar_mem_line hbar)

omit hbacks in
/-- The name of an applied operand counts where no bar stands before it. -/
theorem headName_of_applied :
    (Dialect.typeScript.headName (line (fronts ++ [operand { head := single.head }]))).map
        String.ofList =
      if fronts.isEmpty then (Dialect.typeScript.headName single.head.text).map String.ofList
      else [] := by
  cases fronts with
  | nil =>
      have hhead : line ([] ++ [operand { head := single.head }]) = single.head.text :=
        line_singleton _
      rw [hhead]
      rfl
  | cons front others =>
      have hbar : bar ∈ front :: others ++ [operand { head := single.head }] :=
        List.mem_append_left _ (bar_mem_of_operands_eq_nil hfronts (List.cons_ne_nil _ _))
      rw [Dialect.headName, isDottedName_of_sign (bar_mem_line hbar) (by decide) (by decide)]
      rfl

/-- The names that a single operand among bars uses. -/
theorem mem_names_single (h : Alternate (fronts ++ operand single :: backs)) {expr : Text}
    (hexpr : strip expr = line (fronts ++ operand single :: backs)) (name : String) :
    name ∈ (Dialect.typeScript.names expr).map String.ofList ↔
      name ∈ lineUsed (fronts ++ operand single :: backs) := by
  have hnames := names_line (by simp) hexpr
  have hone : operands (fronts ++ operand single :: backs) = [single] :=
    operands_single hfronts hbacks
  have hstarts : startsWithBar (fronts ++ operand single :: backs) = !fronts.isEmpty :=
    startsWithBar_single hfronts
  by_cases hargs : single.args = []
  · by_cases halone : fronts = [] ∧ backs = []
    -- nothing but the name
    · obtain ⟨rfl, rfl⟩ := halone
      rw [List.nil_append, line_singleton] at hexpr
      rw [lineUsed, hone, hstarts]
      exact TypeTree.mem_names Dialect.regular_typeScript hexpr name
    · rw [hnames, step_of_named hfronts hbacks h hargs halone,
        lineUsed_of_named hfronts hbacks hargs halone]
      simp
  · rw [hnames, step_of_applied hfronts hbacks h hargs, List.map_append, List.mem_append,
      mem_names_all, headName_of_applied hfronts, TypeTree.map_headName, lineUsed, hone, hstarts]
    cases fronts with
    | nil => simp [single.used_eq, hargs]
    | cons front others => simp

end Single

/-- The names that a line uses, if it is read for itself. -/
theorem mem_names_line (h : Alternate tokens) (hne : tokens ≠ []) {expr : Text}
    (hexpr : strip expr = line tokens) (name : String) :
    name ∈ (Dialect.typeScript.names expr).map String.ofList ↔ name ∈ lineUsed tokens := by
  have hnames := names_line hne hexpr
  cases hoperands : operands tokens with
  | nil =>
      have hbar : bar ∈ tokens := bar_mem_of_operands_eq_nil hoperands hne
      have hangle : '<' ∉ line tokens := angle_not_mem_line (by simp [hoperands])
      rw [hnames, step_of_bar h (by simp [hoperands]) hangle (bar_mem_line hbar), lineUsed, hoperands]
      simp
  | cons first others =>
      -- beside bars a single operand is read as a type with its bars, several are read one by one
      cases others with
      | nil =>
          obtain ⟨fronts, token, backs, rfl, hfronts, htoken, hbacks⟩ :=
            List.filterMap_eq_cons_iff.mp hoperands
          cases token with
          | bar => exact absurd htoken nofun
          | operand value =>
              obtain rfl : value = first := Option.some.inj htoken
              exact mem_names_single (List.filterMap_eq_nil_iff.mpr hfronts) hbacks h hexpr name
      | cons second more =>
          have hall := mem_names_all ((operands tokens).map Operand.tree) name
          have htexts : ((operands tokens).map Operand.tree).map TypeTree.plain =
              (operands tokens).map Operand.text := List.map_map
          have hused : ((operands tokens).map Operand.tree).flatMap TypeTree.used =
              (operands tokens).flatMap Operand.used := List.flatMap_map ..
          rw [htexts, hused, hoperands] at hall
          rw [hnames, step_of_several h (by simp [hoperands]), lineUsed, hoperands]
          exact hall

end Names

end UnionToken

end ClassDiagram
