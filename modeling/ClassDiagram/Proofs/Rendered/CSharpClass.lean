import ClassDiagram.Proofs.Model.Run
import ClassDiagram.Proofs.Reading.Directives
import ClassDiagram.Proofs.Rendered.CSharpBody

/-!
# Written classes of C#

A whole class as it is written: keyword, name, base list, and one member in a line. Reading it
gives back the class that was written.

* `facts_text`: the facts of a written class, in order.
* `ofContributions_csharp_class`: the model is the one class, with its members and relations.
-/

namespace ClassDiagram

namespace CSharp

open Text

/-- A class: its name, the names it derives from, and its members. -/
structure ClassTerm where
  name : Ident reservedWords
  bases : List (Ident reservedWords)
  members : List Member

namespace ClassTerm

variable (cls : ClassTerm)

/-- What stands between the name of a class and the brace that opens its body. -/
def header : Text :=
  match cls.bases with
  | [] => [' ']
  | first :: others =>
    ' ' :: (':' :: ' ' :: join [',', ' '] ((first :: others).map Ident.chars)) ++ [' ']

/-- The word that announces a class, and a space. -/
def keyword : Text := "class ".toList

/-- A class as it is written, its members indented by some spaces. -/
def text (indent : Nat) : Text :=
  keyword ++ (cls.name.chars ++ (cls.header ++
    '\x7b' :: (bodyText indent cls.members ++ ['\x7d'])))

/-- The entity that a class is: its first base counts as base, all others as interfaces. -/
def entity : Entity :=
  .ofClass cls.name.name ((cls.bases.take 1).map Ident.name) ((cls.bases.drop 1).map Ident.name)
    (cls.members.map Member.toClassMember)

/-- What makes a class well-formed: nothing in it is called like the class, and its members are
told apart. -/
structure WellFormed : Prop where
  bases_other : ∀ base ∈ cls.bases, base.name ≠ cls.name.name
  members_other : ∀ member ∈ cls.members, member.typed.name.name ≠ cls.name.name
  fields_distinct : (cls.entity.fields.map Field.name).Nodup
  methods_distinct : (cls.entity.methods.map Method.signature).Nodup

/-- All features of a class, in the order in which they are met. -/
def features : List Feature :=
  Entity.classFeatures ((cls.bases.take 1).map Ident.name) ((cls.bases.drop 1).map Ident.name)
    ((cls.members ++ cls.members.filter Member.isField).map Member.toClassMember)

end ClassTerm

/-! ## The text that is searched -/

/-- A text without literals, comments and directives is searched as it is. -/
theorem content_of_plain {source : Text} (h : ∀ c ∈ source, isPlain c = true)
    (hdirective : '#' ∉ source) : content source = source := by
  unfold content
  rw [stripComments_of_plain h, dropDirectives_of_not_mem hdirective, mask_of_plain h]

section Chars

variable (cls : ClassTerm)

/-- A header is spelled with spaces, commas and a colon. -/
theorem spelled_header : Spelled isIdentChar [' ', ':', ','] cls.header := by
  unfold ClassTerm.header
  split
  · exact .of_all (by decide)
  · exact .append (.cons (by decide) (.cons (by decide) (.cons (by decide)
      (.join (.of_all (by decide)) (List.forall_mem_map.mpr fun base _ => base.spelled)))))
      (.of_all (by decide))

theorem spelled_bodyText (indent : Nat) (members : List Member) :
    Spelled isIdentChar ('\n' :: lineSigns) (bodyText indent members) :=
  .indented (by decide) (by decide) (List.forall_mem_map.mpr fun member _ =>
    (spelled_line member).mono (List.subset_cons_self _ _))

/-- A class is spelled with few signs. -/
theorem spelled_text (indent : Nat) :
    Spelled isIdentChar (':' :: '\n' :: lineSigns) (cls.text indent) := by
  have hbody := (spelled_bodyText indent cls.members).mono (List.subset_cons_self ':' _)
  exact .append (.of_all (by decide)) (cls.name.spelled.append
    (((spelled_header cls).mono (by decide)).append
      (.cons (by decide) (hbody.append (.of_all (by decide))))))

/-- There are no comments and no directives in a class, so all of it is searched. -/
theorem content_text (indent : Nat) : content (cls.text indent) = cls.text indent :=
  content_of_plain
    ((spelled_text cls indent).forall_mem (fun _ => isPlain_of_identChar) (forall_chars (by decide)))
    ((spelled_text cls indent).not_mem (by decide) (by decide))

end Chars

/-! ## The header -/

section Header

variable (cls : ClassTerm)

/-- The class's keyword and name are found at its start. -/
theorem header?_class (name : Ident reservedWords) {c : Char} (hc : isWordChar c = false)
    (rest : Text) :
    header? (ClassTerm.keyword ++ (name.chars ++ c :: rest)) =
      some ("class", name.chars, c :: rest) := by
  have hspan : spanWord (ClassTerm.keyword ++ (name.chars ++ c :: rest)) =
      ("class".toList, ' ' :: (name.chars ++ c :: rest)) := rfl
  have hname : nameBehind? (' ' :: (name.chars ++ c :: rest)) = some (name.chars, c :: rest) := by
    have hblanks : afterBlanks? (' ' :: (name.chars ++ c :: rest)) =
        some (name.chars ++ c :: rest) := by
      rw [afterBlanks?, if_pos (by decide), name.tidy.stripStart_append]
    -- an identifier has no mark before it
    have hplain : markedName? (name.chars ++ c :: rest) = name? (name.chars ++ c :: rest) := by
      obtain ⟨first, others, hchars, hfirst⟩ := name.starts
      rw [hchars, List.cons_append]
      unfold markedName?
      split
      · rename_i heq
        injection heq with hat _
        rw [hat] at hfirst
        exact absurd hfirst (by decide)
      · rfl
    rw [nameBehind?, hblanks, Option.bind_some, hplain, name.name?_append hc]
  unfold header?
  rw [hspan]
  simp only [String.ofList_toList]
  rw [if_pos (by decide), if_neg (by decide), hname]
  rfl

/-- The name of a class is not passed over as a reserved word. -/
theorem isReserved_ident (name : Ident reservedWords) :
    isReserved (String.ofList name.chars) = false := by
  have hfree := name.isFree
  have hsub : ∀ word, isReserved word = true → word ∈ reservedWords := by
    intro word hword
    simp only [isReserved, Bool.or_eq_true, List.contains_iff_mem, beq_iff_eq] at hword
    simp only [reservedWords, List.mem_append]
    rcases hword with (hword | rfl) | hword
    · exact Or.inl (Or.inl (Or.inl hword))
    · exact Or.inr (by decide)
    · exact Or.inl (Or.inr hword)
  by_contra hreserved
  exact hfree (hsub _ (by simpa using hreserved))

theorem header_eq_cons : ∃ rest, cls.header = ' ' :: rest := by
  unfold ClassTerm.header
  split <;> exact ⟨_, rfl⟩

/-- There is no reserved word in a header. -/
theorem avoids_header : Avoids reservedWords cls.header := by
  have hempty := empty_not_mem_reservedWords
  have hspace : Avoids reservedWords [' '] := (Avoids.nil hempty).cons (by decide) hempty
  unfold ClassTerm.header
  split
  · exact hspace
  · rename_i first others _
    have hlist : Avoids reservedWords (join [',', ' '] ((first :: others).map Ident.chars)) := by
      refine Avoids.join hempty (forall_chars (by decide)) ?_
      intro item hitem
      obtain ⟨base, _, rfl⟩ := List.mem_map.mp hitem
      exact base.avoids
    have hall := hlist.append_cons (show isWordChar ' ' = false by decide) (Avoids.nil hempty)
    exact ((hall.cons (by decide) hempty).cons (by decide) hempty).cons (by decide) hempty

/-- The body starts behind the header. -/
theorem bodyStart?_header (behind : Text) :
    bodyStart? (cls.header ++ '\x7b' :: behind) = some cls.header.length := by
  refine bodyStart?_append ((spelled_header cls).forall_mem ?_ (forall_chars (by decide))) false
    behind
  exact fun c hc => ⟨isOrdinary_of_identChar hc, ne_of_identChar hc (by decide)⟩

theorem next?_eq_none_of_avoids {text : Text} (h : Avoids typeKeywords text) :
    headerRule.next? text = none :=
  HeaderRule.next?_eq_none (fun _ => header?_eq_none) h

/-- The header ends at the brace of the body. -/
theorem headerEnd_header (behind : Text) :
    headerEnd (cls.header ++ '\x7b' :: behind) = (cls.header.length, true) := by
  have hnone : headerRule.next? cls.header = none :=
    next?_eq_none_of_avoids ((avoids_header cls).mono (by decide))
  unfold headerEnd
  simp only [bodyStart?_header, Option.getD_some, List.take_left, hnone]
  rfl

/-- An entry of a base list that is a plain name. -/
theorem baseFacts_ident (owner : String) (isBase : Bool) (base : Ident reservedWords) :
    baseFacts owner isBase base.chars =
      [if isBase then .inherits owner base.name else .realizes owner base.name] := by
  have hcall : upTo '(' base.chars = base.chars := upTo_of_not_mem (base.not_mem (by decide))
  have hangle : indexOf? ['<'] base.chars = none := indexOf?_of_not_mem (base.not_mem (by decide))
  have hbase : baseAndArguments base.chars = (base.chars, []) := by
    unfold baseAndArguments
    rw [hangle]
    show (simpleName base.chars, []) = _
    rw [simpleName_ident]
  unfold baseFacts
  rw [hcall, base.tidy.collapse, hbase]
  simp only [usesOf, usesOf_nil]
  rw [if_neg (by simpa using base.ne_nil)]
  rfl

/-- A header without type parameters and a parameter list. -/
theorem headerFacts_of_strip {owner : String} {header rest : Text} (hrest : strip header = rest)
    (hangle : rest.head? ≠ some '<') (hparen : rest.head? ≠ some '(')
    (hwhere : Avoids ["where"] rest) :
    headerFacts "class" owner header =
      if rest.head? = some ':' then baseListFacts "class" owner (rest.drop 1) else [] := by
  have hplace : wordPlace? "where" rest = none := wordPlace?_eq_none hwhere
  have hclauses : clauses "where" rest = [] := by
    rw [clauses]
    split
    · rfl
    · rename_i place hsome
      rw [hplace] at hsome
      exact absurd hsome (by simp)
  have hafter : afterTypeParameters rest = rest := by rw [afterTypeParameters, if_neg hangle]
  have hprimary : (rest.head? == some '(') = false := beq_eq_false_iff_ne.mpr hparen
  unfold headerFacts
  simp only [hrest, hafter, hprimary, Bool.false_eq_true, if_false, List.nil_append, hplace]
  by_cases hcolon : rest.head? = some ':'
  · rw [if_pos ⟨hcolon, by decide⟩, if_pos hcolon]
  · rw [if_neg (fun h => hcolon h.1), if_neg hcolon, constraintFacts, hclauses]
    rfl

/-- A header with a base list. -/
theorem headerFacts_colon {list : Text} (htidy : Tidy list) (hwhere : Avoids ["where"] list)
    (owner : String) :
    headerFacts "class" owner (' ' :: (':' :: ' ' :: list) ++ [' ']) =
      baseListFacts "class" owner (' ' :: list) := by
  have hcolon : Tidy ([':'] ++ ' ' :: list) := .space (by decide) (forall_chars (by decide)) htidy
  have hstrip : strip ([' '] ++ (([':'] ++ ' ' :: list) ++ [' '])) = [':'] ++ ' ' :: list :=
    hcolon.strip_padded (forall_chars (by decide)) (forall_chars (by decide))
  have hfree : Avoids ["where"] ([':'] ++ ' ' :: list) :=
    (hwhere.cons (by decide) (by decide)).cons (by decide) (by decide)
  have hfacts : headerFacts "class" owner ([' '] ++ (([':'] ++ ' ' :: list) ++ [' '])) =
      if ([':'] ++ ' ' :: list).head? = some ':' then
        baseListFacts "class" owner (([':'] ++ ' ' :: list).drop 1) else [] :=
    headerFacts_of_strip hstrip (by simp) (by simp) hfree
  exact hfacts.trans (if_pos rfl)

/-- A base list: the first entry is the base, all others are interfaces. -/
theorem baseListFacts_idents (owner : String) (first : Ident reservedWords)
    (others : List (Ident reservedWords)) :
    baseListFacts "class" owner (' ' :: join [',', ' '] ((first :: others).map Ident.chars)) =
      .inherits owner first.name :: others.map fun base => .realizes owner base.name := by
  have hsplit : splitTop ([' '] ++ join [',', ' '] ((first :: others).map Ident.chars)) =
      (first :: others).map Ident.chars := by
    have htop : ∀ d, isIdentChar d = true → (d == ',') = false := by
      intro d hd
      exact beq_eq_false_iff_ne.mpr (ne_of_identChar hd (by decide))
    refine splitTop_join (by decide) (by decide) (forall_chars (by decide)) htop ?_
      (forall_chars (by decide))
    intro item hitem
    obtain ⟨base, _, rfl⟩ := List.mem_map.mp hitem
    exact ⟨base.balanced fun c hc => hc, base.tidy⟩
  rw [List.singleton_append] at hsplit
  unfold baseListFacts
  rw [hsplit]
  simp only [List.map_cons, baseFacts_ident, List.flatMap_map]
  rw [← List.map_eq_flatMap]
  rfl

/-- The first name behind the colon is told as the base, the others as interfaces. -/
theorem headerFacts_header (owner : String) :
    headerFacts "class" owner cls.header =
      (((cls.bases.take 1).map Ident.name).map Feature.base ++
        ((cls.bases.drop 1).map Ident.name).map Feature.interface).map (Feature.toFact owner) := by
  unfold ClassTerm.header
  cases hbases : cls.bases with
  | nil =>
      rw [headerFacts_of_strip (strip_blanks (forall_chars (by decide))) (by decide) (by decide)
        (Avoids.nil (by decide))]
      rfl
  | cons first others =>
      have hlist : Tidy (join [',', ' '] ((first :: others).map Ident.chars)) := by
        refine Tidy.join (by decide) (List.cons_ne_nil _ _) ?_
        intro item hitem
        obtain ⟨base, _, rfl⟩ := List.mem_map.mp hitem
        exact base.tidy
      -- no base is called `where`, so that the list has no constraints behind it
      have hwhere : Avoids ["where"] (join [',', ' '] ((first :: others).map Ident.chars)) := by
        refine Avoids.join (by decide) (forall_chars (by decide)) ?_
        intro item hitem
        obtain ⟨base, _, rfl⟩ := List.mem_map.mp hitem
        exact base.avoids.mono (by decide)
      show headerFacts "class" owner
        (' ' :: (':' :: ' ' :: join [',', ' '] ((first :: others).map Ident.chars)) ++ [' ']) = _
      rw [headerFacts_colon hlist hwhere, baseListFacts_idents, List.map_append, List.map_map,
        List.map_map, List.map_map, List.map_map]
      rfl

end Header

/-! ## The body -/

section Body

/-- A member's line closes every bracket that it opens. -/
theorem balanced_line (member : Member) : Balanced .all (fun _ => True) member.line := by
  obtain ⟨mods, typed, shape⟩ := member
  have hmods : Balanced .all (fun _ => True) (Member.modsText mods) := by
    refine .of_ordinary fun c hc => ⟨?_, trivial⟩
    obtain ⟨word, _, hword⟩ := List.mem_flatMap.mp hc
    rcases List.mem_append.mp hword with hword | hword
    · exact isOrdinary_of_identChar (modifier_word word c hword)
    · rw [List.mem_singleton.mp hword]
      decide
  cases shape with
  | field =>
      have hend : Balanced .all (fun _ => True) [';'] := .of_ordinary (forall_chars (by decide))
      rw [Member.line, Member.text, Shape.text, List.append_nil]
      exact (hmods.append typed.balanced.inside).append hend
  | property => exact (hmods.append (Shape.balanced_property typed).inside).append .nil
  | method params => exact (hmods.append (Shape.balanced_method typed params).inside).append .nil

/-- A body closes every bracket that it opens. -/
theorem balanced_body (indent : Nat) (members : List Member) :
    Balanced .all (fun _ => True) (bodyText indent members) := by
  refine Balanced.indented trivial trivial ?_
  intro line hline
  obtain ⟨member, _, rfl⟩ := List.mem_map.mp hline
  exact balanced_line member

/-- There is no type keyword in a member's line. -/
theorem avoids_line (member : Member) : Avoids typeKeywords member.line := by
  have hends : Avoids typeKeywords (Shape.words ++ ['\x7d']) ∧
      Avoids typeKeywords [' ', '\x7d'] := by
    unfold Avoids
    decide
  have hfront := avoids_front member
  rw [line_eq]
  cases member.shape with
  | field => exact hfront.append_cons (by decide) (.nil (by decide))
  | property => exact hfront.append_cons (by decide) hends.1
  | method params => exact hfront.append_cons (by decide) hends.2

/-- No line of a body and nothing behind it is read as a header. -/
theorem avoids_body (indent : Nat) (members : List Member) :
    Avoids typeKeywords (bodyText indent members ++ ['\x7d']) := by
  have hempty : "" ∉ typeKeywords := by decide
  refine Avoids.indented hempty ?_ ((Avoids.nil hempty).cons (by decide) hempty)
  intro line hline
  obtain ⟨member, _, rfl⟩ := List.mem_map.mp hline
  exact avoids_line member

end Body

/-! ## The whole class -/

section Whole

variable {cls : ClassTerm}

/-- A body tells of its members, and of its fields once more. -/
theorem bodyFacts?_class (hnames : ∀ member ∈ cls.members, member.typed.name.name ≠ cls.name.name)
    (indent : Nat) :
    bodyFacts? "class" cls.name.name
        (cls.header ++ '\x7b' :: (bodyText indent cls.members ++ ['\x7d'])) cls.header.length =
      some ((((cls.members ++ cls.members.filter Member.isField).map
        Member.toClassMember).flatMap ClassMember.features).map
          (Feature.toFact cls.name.name)) := by
  have hclosing : closingAt? (cls.header ++ '\x7b' :: (bodyText indent cls.members ++ ['\x7d']))
      cls.header.length = some ((bodyText indent cls.members).length + 1 + cls.header.length) :=
    closingAt?_append (balanced_body indent cls.members) rfl cls.header []
  unfold bodyFacts?
  rw [hclosing, Option.map_some]
  simp only [take_drop_group]
  rw [if_neg (by decide), memberFacts_body hnames]

/-- The facts of a written class: it is declared, and then its features are told. -/
theorem facts_text (hnames : ∀ member ∈ cls.members, member.typed.name.name ≠ cls.name.name)
    (indent : Nat) :
    facts (cls.text indent) =
      .declares cls.name.name .cls "class" (some 0) ::
        cls.features.map (Feature.toFact cls.name.name) := by
  obtain ⟨behind, hbehind⟩ := header_eq_cons cls
  have hnext : headerRule.next? (cls.text indent) = some ⟨"class", cls.name.chars, 0,
      cls.header ++ '\x7b' :: (bodyText indent cls.members ++ ['\x7d'])⟩ := by
    refine HeaderRule.next?_of_read? ?_ (isReserved_ident cls.name)
    show header? (cls.text indent) = _
    rw [ClassTerm.text, hbehind]
    exact header?_class cls.name (c := ' ') (by decide) _
  have hrest : (cls.header ++ '\x7b' :: (bodyText indent cls.members ++ ['\x7d'])).drop
      (cls.header.length + 1) = bodyText indent cls.members ++ ['\x7d'] := by
    rw [← List.drop_drop, List.drop_left]
    rfl
  -- reading goes on in the body, where no type is declared
  have hend : ∀ offset, factsFrom offset (bodyText indent cls.members ++ ['\x7d']) = [] := by
    intro offset
    have hnone := next?_eq_none_of_avoids (avoids_body indent cls.members)
    rw [factsFrom]
    split
    · rfl
    · rename_i hsome
      rw [hnone] at hsome
      exact absurd hsome (by simp)
  rw [facts, content_text, factsFrom]
  split
  · rename_i hnone
    rw [hnext] at hnone
    exact absurd hnone (by simp)
  · rename_i found hsome
    rw [hnext] at hsome
    cases hsome
    have hname : String.ofList cls.name.chars = cls.name.name := rfl
    simp only [unmark_ident, hname, headerEnd_header, if_true, List.take_left, hrest, hend,
      headerFacts_header, bodyFacts?_class hnames]
    simp only [ClassTerm.features, Entity.classFeatures, List.map_append, List.append_assoc,
      List.append_nil, List.cons_append]
    rfl

/-- Reading a well-formed class as it is written gives that class and nothing else: its name, the
first base and the interfaces behind it, its fields and properties and its methods in order with
their types as written, and what these types use. -/
theorem ofContributions_csharp_class (h : cls.WellFormed) (indent : Nat) :
    (Source.read { text := cls.text indent } .cSharp).fault = none ∧
      Model.ofContributions [⟨.cSharp, { text := cls.text indent }⟩] = ⟨[cls.entity]⟩ := by
  have hother : ∀ other ∈ (cls.bases.take 1).map Ident.name ++ (cls.bases.drop 1).map Ident.name,
      other ≠ "" ∧ other ≠ cls.name.name := by
    intro other hmem
    rw [← List.map_append, List.take_append_drop] at hmem
    obtain ⟨base, hbase, rfl⟩ := List.mem_map.mp hmem
    exact ⟨base.name_ne_empty, h.bases_other base hbase⟩
  -- fields and properties are told twice; the second time changes nothing
  have hagain : ∀ member ∈ (cls.members.filter Member.isField).map Member.toClassMember,
      member ∈ cls.members.map Member.toClassMember := by
    intro member hmember
    obtain ⟨written, hwritten, rfl⟩ := List.mem_map.mp hmember
    exact List.mem_map_of_mem (List.mem_filter.mp hwritten).1
  refine ⟨rfl, ?_⟩
  show Model.empty.applyAll ((facts (cls.text indent)).map (Finding.mk .cSharp)) = _
  rw [facts_text h.members_other, Model.applyAll_declared, ClassTerm.features, List.map_append,
    Entity.gainAll_class hagain h.fields_distinct h.methods_distinct hother]
  rfl

/-- A class with a base and an interface, and with members of every shape. -/
def cart : ClassTerm :=
  let map : Ident reservedWords := { chars := "Map".toList }
  let item : Nominal reservedWords := .named { first := { chars := "Item".toList } }
  { name := { chars := "Cart".toList }
    bases := [{ chars := "Base".toList }, { chars := "IBox".toList }]
    members := [
      { mods := [⟨"public", by decide⟩]
        typed := ⟨.applied ⟨{ chars := "Data".toList }, [map]⟩ [item, .array item],
          { chars := "rows".toList }⟩
        shape := .field },
      { mods := []
        typed := ⟨.nullable item, { chars := "Top".toList }⟩
        shape := .property },
      { mods := [⟨"private", by decide⟩, ⟨"static", by decide⟩]
        typed := ⟨item, { chars := "Find".toList }⟩
        shape := .method [⟨.array item, { chars := "a".toList }⟩,
          ⟨.named { first := map }, { chars := "get".toList }⟩] }] }

theorem cart_read : cart.WellFormed ∧
    String.ofList (cart.text 2) = "class Cart : Base, IBox \x7b
  public Data.Map<Item, Item[]> rows;
  Item? Top \x7b get; set; \x7d
  private static Item Find(Item[] a, Map get) \x7b \x7d
\x7d" ∧
    Model.ofContributions [⟨.cSharp, { text := cart.text 2 }⟩] = ⟨[cart.entity]⟩ := by
  have hcart : cart.WellFormed :=
    { bases_other := by decide
      members_other := by decide
      fields_distinct := by decide
      methods_distinct := by decide }
  refine ⟨hcart, ?_, (ofContributions_csharp_class hcart 2).2⟩
  -- unfolded, the text and the literal are the same list of characters
  set_option maxRecDepth 4000 in
  rfl

end Whole

end CSharp

end ClassDiagram
