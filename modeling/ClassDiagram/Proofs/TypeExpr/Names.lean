import ClassDiagram.Proofs.TypeExpr.Cleaned

/-!
# The names that a written type expression uses

An expression is taken apart as a text, where each step has to find again what the parts were. On a
written expression every step gives the parts of its tree.

* `TypeTree.reads_alternatives`, `TypeTree.reads_group`, `TypeTree.reads_function`,
  `TypeTree.reads_applied`, `TypeTree.reads_named`: the five kinds of step.
* `TypeTree.mem_names`: the steps together give the names in type position.
-/

namespace ClassDiagram

open Text

namespace TypeTree

variable {dialect : Dialect}

/-- What one step makes of an expression: parts that are expressions between blanks. They and the
names at the head use what the expression uses. -/
def Reads (type : TypeTree dialect) (result : List Text × List Text) : Prop :=
  ∃ parts : List (TypeTree dialect), result.2.map strip = parts.map plain ∧
    ∀ name, name ∈ type.used ↔
      name ∈ result.1.map String.ofList ∨ ∃ part ∈ parts, name ∈ part.used

section Steps

variable {kind : Dialect} (hregular : dialect.Regular)
include hregular

/-- Plain texts are trimmed. -/
theorem map_strip_plain (types : List (TypeTree dialect)) :
    (types.map plain).map strip = types.map plain := by
  rw [List.map_map]
  exact List.map_congr_left fun type _ => (tidy hregular type false).strip

/-- Expressions can be the entries of a list with commas. -/
theorem entry_plain (types : List (TypeTree dialect)) :
    ∀ entry ∈ types.map plain, Nested (· ≠ ',') entry ∧ Tidy entry :=
  List.forall_mem_map.mpr fun type _ => ⟨nested hregular type, tidy hregular type false⟩

/-! ## Alternatives -/

/-- The first step parts a type of several alternatives. -/
theorem reads_alternatives {row : Row dialect} {type : TypeTree dialect} (h : row.Of type)
    (hmany : 1 < row.types.length) : Reads type (dialect.step type.plain) := by
  have hstep : dialect.step type.plain = ([], row.types.map plain) := by
    unfold Dialect.step
    rw [h.splitAlternatives hregular]
    exact if_pos (by simpa using hmany)
  rw [hstep]
  exact ⟨row.types, map_strip_plain hregular row.types, fun name => by simp [h.used]⟩

/-! ## Groups -/

omit hregular in
/-- A member that is an alternative or a function type is no name with a type before it. -/
theorem memberType_of_compound {member : Text} (h : dialect.isCompound member = true) :
    dialect.memberType member = member := by
  unfold Dialect.memberType
  split
  · rw [h]
    simp
  · rfl

omit hregular in
/-- What stands in one pair of brackets is a group. -/
theorem isGroup_brackets {opener closer : Char} (hpair : closer? opener = some closer) {inner : Text}
    {top : Char → Prop} (h : Nested top inner) :
    isGroup opener (opener :: (inner ++ [closer])) = true := by
  have hclosing : closing? (opener :: (inner ++ [closer])) = some (inner.length + 1) :=
    closing?_nested h hpair (by simp [Unquoted])
  simp [isGroup, hclosing]

omit hregular in
/-- The members of a group are what its brackets hold. -/
theorem groupMembers_brackets (opener closer : Char) (inner : Text) :
    groupMembers (opener :: (inner ++ [closer])) = splitTop inner := by
  rw [groupMembers, ← List.cons_append, List.dropLast_concat, List.drop_one, List.tail_cons]

/-- An expression in parentheses is a group with one member. -/
theorem reads_group {type : TypeTree dialect} (inner : TypeTree dialect)
    (hplain : type.plain = paren true inner.plain) (hused : type.used = inner.used)
    (hcompound : dialect.isCompound inner.plain = true)
    (hsingle : ¬ 1 < (dialect.splitAlternatives type.plain).length) :
    Reads type (dialect.step type.plain) := by
  have hnested := nested hregular inner
  have htidy : Tidy inner.plain := tidy hregular inner false
  have hgroup : isGroup '(' type.plain = true := by
    rw [hplain]
    exact isGroup_brackets rfl hnested
  have hmembers : type.plain.groupMembers = [inner.plain] := by
    rw [hplain]
    refine (groupMembers_brackets _ _ _).trans (splitTop_nested hnested (fun _ hd => ?_) htidy htidy.strip)
    exact beq_eq_false_iff_ne.mpr hd
  have hstep : dialect.step type.plain = ([], [inner.plain]) := by
    unfold Dialect.step
    rw [if_neg hsingle, if_pos (Or.inl hgroup), hmembers, List.map_singleton,
      memberType_of_compound hcompound]
  rw [hstep]
  exact ⟨[inner], map_strip_plain hregular [inner], fun name => by simp [hused]⟩

/-! ## Function types -/

/-- A parameter has its annotation behind its colon. -/
theorem annotations_paramGroup (params : List (Identifier × TypeTree dialect)) :
    annotations (paramGroup params) = params.map fun param => ' ' :: param.2.plain := by
  have hmembers : groupMembers (paramGroup params) = params.map (writeParam false) := by
    refine (groupMembers_brackets _ _ _).trans (splitTop_listed fun item hitem => ?_)
    obtain ⟨param, _, rfl⟩ := List.mem_map.mp hitem
    exact ⟨nested_param (nested hregular param.2), tidy_param (tidy hregular param.2 false)⟩
  have hcolon : ∀ param : Identifier × TypeTree dialect,
      ((topLevel? [':'] (writeParam false param)).map fun colon =>
        (writeParam false param).drop (colon + 1)) = some (' ' :: param.2.plain) := by
    rintro ⟨name, type⟩
    have hplace : topLevel? [':'] (name.chars ++ ':' :: ' ' :: type.plain) =
        some name.chars.length :=
      topLevel?_level_append (nested_name name).level (passes_class (by decide)) rfl
    show ((topLevel? [':'] (name.chars ++ ':' :: ' ' :: type.plain)).map fun colon =>
      (name.chars ++ ':' :: ' ' :: type.plain).drop (colon + 1)) = _
    rw [hplace, Option.map_some, List.drop_append]
    simp
  have hgroup : isGroup '(' (paramGroup params) = true :=
    isGroup_brackets rfl (nested_params fun param _ => nested hregular param.2)
  rw [annotations, if_pos hgroup, hmembers, List.filterMap_map, ← List.filterMap_eq_map]
  exact List.filterMap_congr fun param _ => hcolon param

omit hregular in
/-- The arrow of a function's type parts its parameters from its result. -/
theorem lead_append (params : List (Identifier × TypeTree dialect)) (result : Text) :
    lead params ++ result = (paramGroup params ++ [' ']) ++ '=' :: '>' :: ' ' :: result := by
  simp [lead]

/-- The arrow of a function type is the first one outside of brackets. -/
theorem arrow?_function (params : List (Identifier × TypeTree dialect)) (result : Text) :
    Dialect.arrow? (lead params ++ result) = some (paramGroup params ++ [' ']).length := by
  have hbefore : Nested (· ≠ '=') (paramGroup params ++ [' ']) :=
    Nested.append (.group rfl (by decide) (by decide)
      (nested_params fun param _ => nested hregular param.2)) (.of_inert (forall_chars (by decide)))
  have hplace : topLevel? ['=', '>'] (lead params ++ result) =
      some (paramGroup params ++ [' ']).length := by
    rw [lead_append]
    exact topLevel?_level_append hbefore.level (passes_of_ne (by decide) fun _ hc => hc) rfl
  have hhead : (lead params ++ result).head? = some '(' := rfl
  rw [Dialect.arrow?, if_pos (Or.inl hhead), hplace]
  simp

/-- The parameters of a function type are a group, but not all of it. -/
theorem not_group_function (params : List (Identifier × TypeTree dialect)) {result : Text}
    (hresult : Unquoted result) :
    ¬ (isGroup '(' (lead params ++ result) = true ∨ isGroup '[' (lead params ++ result) = true) := by
  have hunquoted : Unquoted ([' ', '=', '>', ' '] ++ result) :=
    List.forall_mem_append.mpr ⟨forall_chars (by decide), hresult⟩
  have htext : lead params ++ result = '(' :: (join [',', ' '] (params.map (writeParam false)) ++
      ')' :: ([' ', '=', '>', ' '] ++ result)) := by
    simp [lead, paramGroup]
  have hparams : Nested (fun _ => True) (join [',', ' '] (params.map (writeParam false))) :=
    nested_params fun param _ => nested hregular param.2
  have hclosing := closing?_nested hparams (show closer? '(' = some ')' from rfl) hunquoted
  rw [htext]
  simp only [isGroup, hclosing]
  simp

/-- The first step parts a function's type into its result and its parameters' types. -/
theorem reads_function (params : List (Identifier × TypeTree dialect)) (result : TypeTree dialect)
    (angles : dialect.opener = '<')
    (hsingle : ¬ 1 <
      (dialect.splitAlternatives (function false params result angles).plain).length) :
    Reads (function false params result angles)
      (dialect.step (function false params result angles).plain) := by
  have hplain : (function false params result angles).plain = lead params ++ result.plain :=
    plain_function false params result angles
  have htidy : Tidy (paramGroup params) := by
    refine Tidy.listed (by decide) (by decide) fun item hitem => ?_
    obtain ⟨param, _, rfl⟩ := List.mem_map.mp hitem
    exact tidy_param (tidy hregular param.2 false)
  have hparams : afterTypeParameters
      (strip ((lead params ++ result.plain).take (paramGroup params ++ [' ']).length)) =
      paramGroup params := by
    have hhead : (paramGroup params).head? ≠ some '<' := by simp [paramGroup]
    rw [lead_append, List.take_left, htidy.strip_before (forall_chars (by decide)),
      afterTypeParameters, if_neg hhead]
  have hresult : (lead params ++ result.plain).drop ((paramGroup params ++ [' ']).length + 2) =
      ' ' :: result.plain := by
    rw [lead_append, ← List.drop_drop, List.drop_left]
    rfl
  -- neither alternatives nor brackets around all of it, so the arrow is looked for
  have hstep : dialect.step (lead params ++ result.plain) =
      ([], (' ' :: result.plain) :: params.map fun param => ' ' :: param.2.plain) := by
    rw [hplain] at hsingle
    unfold Dialect.step
    rw [if_neg hsingle, if_neg (not_group_function hregular params (nested hregular result).unquoted),
      arrow?_function hregular]
    show ([], _ :: _) = _
    rw [hparams, hresult, annotations_paramGroup hregular]
  rw [hplain, hstep]
  refine ⟨result :: params.map Prod.snd, ?_, fun name => ?_⟩
  · have hspace : ∀ type : TypeTree dialect, strip (' ' :: type.plain) = type.plain :=
      fun type => (tidy hregular type false).strip_space
    simp [hspace]
  · rw [used, usedByParams_eq_flatMap, List.mem_append, List.mem_flatMap, or_comm]
    simp only [List.map_nil, List.not_mem_nil, false_or, List.mem_cons, or_and_right, exists_or,
      exists_eq_left]

/-! ## Names -/

omit hregular in
/-- What begins with a name is no group and no function type. -/
theorem name_first (name : DottedName kind) (behind : Text) :
    ¬ (isGroup '(' (name.text ++ behind) = true ∨ isGroup '[' (name.text ++ behind) = true) ∧
      Dialect.arrow? (name.text ++ behind) = none := by
  obtain ⟨c, rest, htext, hc⟩ := name.exists_head
  have hne : ∀ d, isDollarNameChar d = false → d ≠ '.' → c ≠ d := by
    rintro d hd hdot rfl
    rcases hc with hname | rfl
    · exact ne_of_class hname hd rfl
    · exact hdot rfl
  have hparen := hne '(' (by decide) (by decide)
  have hsquare := hne '[' (by decide) (by decide)
  have hangle := hne '<' (by decide) (by decide)
  rw [htext, List.cons_append]
  constructor
  · simp [isGroup, hparen, hsquare]
  · simp [Dialect.arrow?, hparen, hangle]

/-- A name opens no bracket. -/
theorem opener_not_mem (name : DottedName kind) : dialect.opener ∉ name.text := by
  have hother := hregular.brackets (fun c => isDollarNameChar c = false ∧ c ≠ '.')
    (forall_chars (by decide))
  exact name.not_mem hother.1.1 hother.1.2

/-- The first step reads a name. -/
theorem step_named (name : DottedName kind)
    (hsingle : ¬ 1 < (dialect.splitAlternatives name.text).length) :
    dialect.step name.text = ([simpleName name.text], []) := by
  have hfirst := name_first name []
  rw [List.append_nil] at hfirst
  unfold Dialect.step
  rw [if_neg hsingle, if_neg hfirst.1, hfirst.2,
    indexOf?_of_not_mem (opener_not_mem hregular name), name.isDottedName_text]
  rfl

/-- The first step reads all of a name. -/
theorem reads_named (name : DottedName dialect)
    (hsingle : ¬ 1 < (dialect.splitAlternatives (named name).plain).length) :
    Reads (named name) (dialect.step (named name).plain) := by
  show Reads (named name) (dialect.step name.text)
  rw [step_named hregular name hsingle]
  exact ⟨[], rfl, fun other => by simp [used, name.simpleName_text]⟩

/-- The head of an application is what stands before the first opening bracket, its arguments stand
between the commas up to the bracket that closes it. What stands behind that is lost. -/
theorem step_applied {head behind : Text} (hhead : Tidy head) (hopener : dialect.opener ∉ head)
    (hbehind : Unquoted behind) {args : List Text}
    (hargs : ∀ arg ∈ args, Nested (· ≠ ',') arg ∧ Tidy arg) {expr : Text}
    (hexpr : expr = head ++ dialect.opener :: (join [',', ' '] args ++ dialect.closer :: behind))
    (hsingle : ¬ 1 < (dialect.splitAlternatives expr).length)
    (hname : ¬ (isGroup '(' expr = true ∨ isGroup '[' expr = true) ∧ Dialect.arrow? expr = none) :
    dialect.step expr =
      if dialect.valueWrappers.contains (String.ofList (simpleName head)) then ([], [])
      else (dialect.headName head, args) := by
  have hlist : Nested (fun _ => True) (join [',', ' '] args) :=
    .join (fun arg harg => (hargs arg harg).1.inside) (.of_inert (forall_chars (by decide)))
  have hsplit : splitTop (join [',', ' '] args) = args := splitTop_listed hargs
  -- from here on only the brackets around the arguments matter
  generalize join [',', ' '] args = list at *
  have hclosing : closing? (dialect.opener :: (list ++ dialect.closer :: behind)) =
      some (list.length + 1) :=
    closing?_nested hlist hregular.pair hbehind
  have hindex := indexOf?_append_mark hopener (list ++ dialect.closer :: behind)
  obtain ⟨start, hstart⟩ := Nat.exists_eq_add_one_of_ne_zero
    (fun h => hhead.ne_nil (List.eq_nil_of_length_eq_zero h))
  have hfront : strip (expr.take (start + 1)) = head := by
    rw [hexpr, ← hstart, List.take_left, hhead.strip]
  have hclose : closingAt? expr (start + 1) = some (list.length + 1 + (start + 1)) := by
    rw [hexpr, closingAt?, ← hstart, List.drop_left, hclosing]
    rfl
  have hbetween : (expr.take (list.length + 1 + (start + 1))).drop (start + 2) = list := by
    rw [hexpr, ← hstart, show start + 2 = head.length + 1 by omega, ← List.drop_drop]
    simp [List.take_append]
  unfold Dialect.step
  rw [if_neg hsingle, if_neg hname.1, hname.2]
  rw [← hexpr, hstart] at hindex
  simp only [hindex, hfront, hclose, Option.getD_some, hbetween, hsplit]

omit hregular in
/-- The head of an application is used, unless it is a wrapper. -/
theorem map_headName (head : DottedName kind) :
    (dialect.headName head.text).map String.ofList =
      if dialect.containers.contains head.last then [] else [head.last] := by
  unfold Dialect.headName
  rw [head.isDottedName_text, head.simpleName_text]
  split <;> split <;> simp_all [head.simpleName_text]

/-- The first step reads the head of a generic type and leaves its arguments. -/
theorem reads_applied (head : DottedName dialect) (first : TypeTree dialect)
    (others : List (TypeTree dialect))
    (hsingle : ¬ 1 < (dialect.splitAlternatives (applied head first others).plain).length) :
    Reads (applied head first others) (dialect.step (applied head first others).plain) := by
  have hfirst : _ ∧ Dialect.arrow? (applied head first others).plain = none :=
    plain_applied head first others ▸ name_first head _
  rw [step_applied hregular head.tidy (opener_not_mem hregular head) (by simp [Unquoted])
    (entry_plain hregular (first :: others)) (plain_applied head first others) hsingle hfirst,
    head.simpleName_text]
  split
  · rename_i hvalues
    refine ⟨[], rfl, fun name => ?_⟩
    rw [used, if_pos hvalues]
    simp
  · rename_i hvalues
    refine ⟨first :: others, map_strip_plain hregular _, fun name => ?_⟩
    rw [used, if_neg hvalues, map_headName, usedByAll_eq_flatMap, ← List.flatMap_cons, List.mem_append,
      List.mem_flatMap]

/-! ## Every step -/

/-- An expression need only be looked at further if it is no alternatives. -/
theorem reads_of_single {type : TypeTree dialect}
    (h : ¬ 1 < (dialect.splitAlternatives type.plain).length →
      Reads type (dialect.step type.plain)) : Reads type (dialect.step type.plain) := by
  by_cases hmany : 1 < (dialect.splitAlternatives type.plain).length
  · obtain ⟨row, hrow⟩ := exists_row hregular type
    rw [hrow.splitAlternatives hregular, List.length_map] at hmany
    exact reads_alternatives hregular hrow hmany
  · exact h hmany

/-- Joined alternatives are parted. -/
theorem many_joined {sign : Char} (left right : TypeTree dialect)
    (separates : sign ∈ dialect.alternatives) :
    1 < (dialect.splitAlternatives (joined false sign left right separates).plain).length := by
  obtain ⟨row, hrow⟩ := exists_row hregular (joined false sign left right separates)
  have hpos := List.length_pos_iff.mpr (hrow.many rfl)
  rw [hrow.splitAlternatives hregular, List.length_map]
  simpa [Row.types] using hpos

/-- The first step reads a part of a type and leaves types to read, whatever its form. -/
theorem reads_step (type : TypeTree dialect) :
    Reads type.bare (dialect.step type.bare.plain) := by
  refine bare_induct (motive := fun bare => Reads bare (dialect.step bare.plain))
    ?named ?applied ?joined ?function ?joinedInParens ?functionInParens type
  case named => exact fun name => reads_of_single hregular (reads_named hregular name)
  case applied =>
    exact fun head first others =>
      reads_of_single hregular (reads_applied hregular head first others)
  case joined =>
    intro sign left right separates _
    exact reads_of_single hregular fun hsingle => absurd (many_joined hregular _ _ _) hsingle
  case function =>
    exact fun params result angles _ =>
      reads_of_single hregular (reads_function hregular params _ angles)
  -- in parentheses the type is read as a group with one member
  case joinedInParens =>
    intro sign left right separates
    refine reads_of_single hregular
      (reads_group hregular (joined false sign left right separates) ?_ rfl ?_)
    · rw [plain_joined, plain_joined]
      rfl
    · simp [Dialect.isCompound, many_joined hregular]
  case functionInParens =>
    intro params result angles
    refine reads_of_single hregular
      (reads_group hregular (function false params result angles) ?_ rfl ?_)
    · rw [plain_function, plain_function]
      rfl
    · have harrow : includes (function false params result angles).plain ['=', '>'] = true := by
        rw [plain_function]
        exact lead_append params result.plain ▸ includes_append _ ['=', '>'] _
      simp [Dialect.isCompound, harrow]

end Steps

/-! ## All names -/

/-- The names of an expression are those at its head and those of its parts. -/
theorem names_of_clean {expr : Text} (hne : dialect.clean expr ≠ []) :
    dialect.names expr = (dialect.step (dialect.clean expr)).1 ++
      (dialect.step (dialect.clean expr)).2.flatMap dialect.names := by
  rw [Dialect.names]
  simp [hne]

/-- The names found in an expression, written with its marks or without and between blanks, are
those in type position. -/
theorem mem_names (hregular : dialect.Regular) {type : TypeTree dialect} {marked : Bool}
    {expr : Text} (h : strip expr = write marked type) (name : String) :
    name ∈ (dialect.names expr).map String.ofList ↔ name ∈ type.used := by
  have hclean : dialect.clean expr = type.bare.plain := clean_write hregular h
  have hne : dialect.clean expr ≠ [] := by
    rw [hclean]
    exact (tidy hregular type.bare false).ne_nil
  obtain ⟨parts, hparts, hused⟩ := reads_step hregular type
  rw [← hclean] at hparts hused
  -- a part is shorter than the expression, and an expression between blanks itself
  have hpart : ∀ part ∈ (dialect.step (dialect.clean expr)).2, ∀ tree : TypeTree dialect,
      tree.plain = strip part →
      (name ∈ (dialect.names part).map String.ofList ↔ name ∈ tree.used) := by
    intro part hpart tree htree
    have hlength := Dialect.length_lt_of_mem_step hne hpart
    have hcleaned := dialect.length_clean_le expr
    exact mem_names hregular htree.symm name
  rw [← used_bare, hused, names_of_clean hne, List.map_append, List.mem_append, List.map_flatMap,
    List.mem_flatMap]
  refine or_congr_right ⟨?_, ?_⟩
  · rintro ⟨part, hmem, hname⟩
    have hstrip : strip part ∈ parts.map plain := hparts ▸ List.mem_map_of_mem hmem
    obtain ⟨tree, htree, heq⟩ := List.mem_map.mp hstrip
    exact ⟨tree, htree, (hpart part hmem tree heq).mp hname⟩
  · rintro ⟨tree, htree, hname⟩
    have hplain : tree.plain ∈ (dialect.step (dialect.clean expr)).2.map strip :=
      hparts ▸ List.mem_map_of_mem htree
    obtain ⟨part, hmem, heq⟩ := List.mem_map.mp hplain
    exact ⟨part, hmem, (hpart part hmem tree heq.symm).mpr hname⟩
termination_by expr.length
decreasing_by omega

/-- The names found in a type are those that it uses. -/
theorem nameSet_text (hregular : dialect.Regular) (type : TypeTree dialect) :
    dialect.nameSet type.text = .ofList type.used := by
  have hstrip : strip type.text = write true type := (tidy hregular type true).strip
  ext name
  rw [Dialect.nameSet, NameSet.mem_ofList, NameSet.mem_ofList, mem_names hregular hstrip]

end TypeTree

namespace Dialect

/-- The names in a type expression of TypeScript are found, and no others. -/
theorem nameSet_typeScript (type : TypeTree .typeScript) :
    typeScript.nameSet type.text = .ofList type.used :=
  type.nameSet_text regular_typeScript

example :
    let key : TypeTree .typeScript := .named
      { first := { chars := "ns".toList }, others := [{ chars := "Key".toList }] }
    let item : TypeTree .typeScript := .named { first := { chars := "Item".toList } }
    let lookup : TypeTree .typeScript := .function false
      [({ chars := "key".toList }, .joined true '|' key item (by decide))]
      (.applied { first := { chars := "Promise".toList } } (.array item 0 rfl) []) rfl
    lookup.text = "(key: (ns.Key | Item)) => Promise<Item[]>".toList ∧
      lookup.used = ["Key", "Item", "Item"] := by
  decide

/-- The names in a type expression of the other dialects are found, and no others. In Python a
literal type names nothing. -/
theorem nameSet_nominal :
    (∀ type : TypeTree .cSharp, cSharp.nameSet type.text = .ofList type.used) ∧
      (∀ type : TypeTree .java, java.nameSet type.text = .ofList type.used) ∧
      (∀ type : TypeTree .python, python.nameSet type.text = .ofList type.used) ∧
      ∀ (head : DottedName .python) (first : TypeTree .python) (others : List (TypeTree .python)),
        head.last = "Literal" → python.nameSet (TypeTree.applied head first others).text = ∅ := by
  refine ⟨TypeTree.nameSet_text regular_cSharp, TypeTree.nameSet_text regular_java,
    TypeTree.nameSet_text regular_python, fun head first others hliteral => ?_⟩
  have hvalues : python.valueWrappers.contains head.last = true := by
    rw [hliteral]
    decide
  rw [TypeTree.nameSet_text regular_python, TypeTree.used, if_pos hvalues]
  rfl

/-- The literal type of two colours. -/
def colours : TypeTree .python :=
  .applied { first := { chars := "typing".toList }, others := [{ chars := "Literal".toList }] }
    (.named { first := { chars := "red".toList } }) [.named { first := { chars := "green".toList } }]

theorem nameSet_colours :
    colours.text = "typing.Literal[red, green]".toList ∧ python.nameSet colours.text = ∅ :=
  ⟨by decide, nameSet_nominal.2.2.2 _ _ _ (by decide)⟩

end Dialect

end ClassDiagram
