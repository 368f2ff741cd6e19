import ClassDiagram.Text.Word

/-!
# Declaration headers

A header is a keyword that starts a word, and a name behind it. What keywords and names there are
differs by language and is given by a rule; how headers are searched for does not: from the front,
and behind a header whose name is reserved the search goes on.

* `length_rest_lt_of_next?`: what follows a header is shorter than what was searched.
-/

namespace ClassDiagram

/-- A header: its keyword, its name as written, its place in the searched text, and what follows
the name. -/
structure Header where
  keyword : String
  name : Text
  offset : Nat
  rest : Text
  deriving DecidableEq, Repr

/-- How the headers of a language are written. -/
structure HeaderRule where
  /-- The header at the front of a text: keyword, name and what follows. -/
  read? : Text → Option (String × Text × Text)
  /-- Whether a name is none for a declaration. -/
  isReserved : String → Bool
  /-- Reading a header takes at least one character. -/
  shorter : ∀ {text keyword name rest}, read? text = some (keyword, name, rest) →
    rest.length < text.length

namespace HeaderRule

/-- The header at the front of a text, unless the text goes on with a word begun before. -/
def at? (rule : HeaderRule) (afterWordChar : Bool) (text : Text) :
    Option (String × Text × Text) :=
  if afterWordChar then none else rule.read? text

theorem shorter_at? {rule : HeaderRule} {afterWordChar : Bool} {text name rest : Text}
    {keyword : String} (h : rule.at? afterWordChar text = some (keyword, name, rest)) :
    rest.length < text.length := by
  unfold at? at h
  split at h
  · simp at h
  · exact rule.shorter h

/-- The next header of a text that goes on at `offset`, behind a word character or not. -/
def nextFrom? (rule : HeaderRule) (afterWordChar : Bool) (offset : Nat) (text : Text) :
    Option Header :=
  match text with
  | [] => none
  | c :: tail =>
    match h : rule.at? afterWordChar (c :: tail) with
    | some (keyword, name, rest) =>
      if rule.isReserved (String.ofList name) then
        rule.nextFrom? true (offset + ((c :: tail).length - rest.length)) rest
      else some ⟨keyword, name, offset, rest⟩
    | none => rule.nextFrom? (Text.isWordChar c) (offset + 1) tail
termination_by text.length
decreasing_by
  · exact shorter_at? h
  · simp

/-- The next header of a text. -/
def next? (rule : HeaderRule) (text : Text) : Option Header := rule.nextFrom? false 0 text

theorem length_rest_lt_of_nextFrom? {rule : HeaderRule} {afterWordChar : Bool} {offset : Nat}
    {text : Text} {header : Header}
    (h : rule.nextFrom? afterWordChar offset text = some header) :
    header.rest.length < text.length := by
  fun_induction nextFrom? rule afterWordChar offset text with
  | case1 => simp at h
  | case2 afterWordChar offset c tail keyword name rest hat _ ih =>
    have := ih h
    have := shorter_at? hat
    omega
  | case3 afterWordChar offset c tail keyword name rest hat _ =>
    simp only [Option.some.injEq] at h
    rw [← h]
    exact shorter_at? hat
  | case4 afterWordChar offset c tail _ ih =>
    have := ih h
    simp only [List.length_cons]
    omega

theorem length_rest_lt_of_next? {rule : HeaderRule} {text : Text} {header : Header}
    (h : rule.next? text = some header) : header.rest.length < text.length :=
  length_rest_lt_of_nextFrom? h

/-- All headers of a text, each searched for behind the name of the one before. -/
def all (rule : HeaderRule) (text : Text) : List Header :=
  match h : rule.next? text with
  | some header => header :: rule.all header.rest
  | none => []
termination_by text.length
decreasing_by exact length_rest_lt_of_next? h

end HeaderRule

end ClassDiagram
