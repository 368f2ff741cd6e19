import ClassDiagram.Drawing.PlantUml
import ClassDiagram.Proofs.Reading.CSharpSpaces
import ClassDiagram.Proofs.Reading.TypeScriptSpaces
import ClassDiagram.Proofs.Scan.Indented

/-!
# PlantUML drawings line by line

A PlantUML document is read by lines, so a line break inside a name or a type would tear a member or
an edge apart. Models of C# and TypeScript sources hold no blanks but spaces: their drawings have
exactly the lines that are drawn, one for each member and one for each edge.

* `Stroke`, `strokes`: what stands on each line, and its text.
* `lines_eq_strokes`: the lines of a drawing are the texts of its strokes.
* `lineCount`, `length_lines`: how many lines are drawn.
* `oneLine_lines`: no line of the drawing of a spaced model breaks.
* `lines_join`, `count_join`: lines that were put together, read again by lines.
* `spaced_ofContributions`: models of C# and TypeScript sources.
* `render_ofContributions`: the drawings of C# and TypeScript sources.
-/

namespace ClassDiagram

/-- Whether the strings of a model have no blanks but spaces. -/
def Model.Spaced (model : Model) : Prop := ∀ string ∈ model.strings, Text.SpacesOnly string.toList

namespace PlantUml

/-! ## What stands on a line -/

/-- What is drawn on one line of a document. -/
inductive Stroke where
  | start
  | blank
  | opening (kind : Kind) (name : String)
  | field (name type : String)
  | method (name : String) (params : List String) (result : String)
  | closing
  | inheritance (base heir : String)
  | realization (interface owner : String)
  | use (user used : String)
  | stop

/-- The text of a line, without the line break behind it. Only members are indented, and a field
without a type is its name alone. -/
def Stroke.text (indent : String) : Stroke → String
  | start => "@startuml"
  | blank => ""
  | opening kind name => kind.word ++ " " ++ name ++ " \x7b"
  | field name type => if type = "" then indent ++ name else indent ++ name ++ " : " ++ type
  | method name params result => indent ++ name ++ "(" ++ ", ".intercalate params ++ ") : " ++ result
  | closing => "\x7d"
  | inheritance base heir => base ++ " <|-- " ++ heir
  | realization interface owner => interface ++ " <|.. " ++ owner
  | use user used => user ++ " ..> " ++ used
  | stop => "@enduml"

/-- The lines of an entity: its members between two braces, then a blank line. -/
def entityStrokes (entity : Entity) : List Stroke :=
  [.opening entity.kind entity.name] ++ entity.fields.map (fun value => .field value.name value.type) ++
    entity.methods.map (fun value => .method value.name value.params value.result) ++
    [.closing, .blank]

/-- The lines of what entities derive from, all bases first. -/
def relationStrokes (model : Model) : List Stroke :=
  (model.entities.flatMap fun entity =>
      entity.bases.toList.map fun base => .inheritance base entity.name) ++
    model.entities.flatMap fun entity =>
      entity.interfaces.toList.map fun interface => .realization interface entity.name

/-- The lines of the dependencies on entities of the model. -/
def useStrokes (model : Model) : List Stroke :=
  model.entities.flatMap fun entity =>
    (entity.dependencies.toList.filter fun used => used ∈ model.names).map fun used =>
      .use entity.name used

/-- Some lines with a blank one behind them, or none. -/
def closed (strokes : List Stroke) : List Stroke :=
  if strokes.isEmpty then [] else strokes ++ [.blank]

/-- The lines of a document, from the first to the last. -/
def strokes (model : Model) : List Stroke :=
  [.start, .blank] ++ model.entities.flatMap entityStrokes ++ closed (relationStrokes model) ++
    closed (useStrokes model) ++ [.stop]

section Texts

variable (indent : String)

/-- A field's stroke is its line in the block. -/
theorem text_field (field : Field) :
    (Stroke.field field.name field.type).text indent = fieldLine indent field := by
  simp only [Stroke.text, fieldLine, String.isEmpty_iff]
  rfl

theorem text_method (method : Method) :
    (Stroke.method method.name method.params method.result).text indent =
      methodLine indent method := rfl

/-- The strokes of an entity are its block and an empty line. -/
theorem map_text_entityStrokes (entity : Entity) :
    (entityStrokes entity).map (Stroke.text indent) = block indent entity ++ [""] := by
  simp only [entityStrokes, block, List.map_append, List.map_map, Function.comp_def, text_field,
    text_method, List.append_assoc]
  rfl

/-- Strokes with an empty line behind them are a paragraph. -/
theorem map_text_closed (drawn : List Stroke) :
    (closed drawn).map (Stroke.text indent) = paragraph (drawn.map (Stroke.text indent)) := by
  cases drawn with
  | nil => rfl
  | cons first rest => exact List.map_append

/-- The strokes of the relations are the arrows of the bases, then those of the interfaces. -/
theorem map_text_relationStrokes (model : Model) :
    (relationStrokes model).map (Stroke.text indent) =
      model.inheritances.map (fun edge => edge.1 ++ " <|-- " ++ edge.2) ++
        model.realizations.map (fun edge => edge.1 ++ " <|.. " ++ edge.2) := by
  simp only [relationStrokes, Model.inheritances, Model.realizations, List.map_append,
    List.map_flatMap, List.map_map]
  rfl

/-- The strokes of the uses are the dotted arrows of the dependencies. -/
theorem map_text_useStrokes (model : Model) :
    (useStrokes model).map (Stroke.text indent) =
      model.uses.map fun edge => edge.1 ++ " ..> " ++ edge.2 := by
  have hdeclared : (fun used => decide (used ∈ model.names)) = model.contains := by
    funext used
    rw [Bool.eq_iff_iff, decide_eq_true_iff, Model.contains_iff]
  simp only [useStrokes, Model.uses, List.map_flatMap, List.map_map, hdeclared]
  rfl

/-- The lines of a drawing are the texts of what stands on them. -/
theorem lines_eq_strokes (model : Model) :
    lines indent model = (strokes model).map (Stroke.text indent) := by
  simp only [strokes, List.map_append, List.map_flatMap, map_text_entityStrokes,
    map_text_closed, map_text_relationStrokes, map_text_useStrokes]
  rfl

end Texts

/-! ## The number of lines -/

/-- The lines that a paragraph of some edges takes. -/
def edgeLines (edges : Nat) : Nat := if 0 < edges then edges + 1 else 0

/-- The lines that the drawing of a model takes: three of the document, three of each entity, one of
each member and each edge, and one behind each paragraph of edges. -/
def lineCount (model : Model) : Nat :=
  3 + model.entities.foldr
      (fun entity rest => 3 + entity.fields.length + entity.methods.length + rest) 0 +
    edgeLines (model.inheritances.length + model.realizations.length) +
    edgeLines model.uses.length

/-- A paragraph has one line more than what is written in it, unless that is nothing. -/
theorem length_paragraph (written : List String) :
    (paragraph written).length = edgeLines written.length := by
  cases written with
  | nil => rfl
  | cons first rest => simp [paragraph, edgeLines]

/-- The blocks have a line for each member and three around them. -/
theorem length_blocks (indent : String) (entities : List Entity) :
    (entities.flatMap fun entity => block indent entity ++ [""]).length =
      entities.foldr
        (fun entity rest => 3 + entity.fields.length + entity.methods.length + rest) 0 := by
  induction entities with
  | nil => rfl
  | cons entity rest ih =>
      rw [List.flatMap_cons, List.length_append, ih, List.foldr_cons, block]
      simp only [List.length_append, List.length_cons, List.length_map, List.length_nil]
      omega

/-- The number of lines can be told from the model. -/
theorem length_lines (indent : String) (model : Model) :
    (lines indent model).length = lineCount model := by
  simp only [lines, lineCount, List.length_append, length_paragraph, length_blocks,
    List.length_map, List.length_cons, List.length_nil]
  omega

/-! ## Lines without breaks -/

/-- Whether a string holds no line break. -/
def OneLine (line : String) : Prop := ∀ c ∈ line.toList, Text.isLineBreak c = false

instance : DecidablePred OneLine := fun line =>
  decidable_of_iff (line.toList.all (fun c => decide (Text.isLineBreak c = false)) = true)
    (by simp only [OneLine, List.all_eq_true, decide_eq_true_eq])

/-- Texts on one line stay on it side by side. -/
theorem OneLine.append {first second : String} (hfirst : OneLine first) (hsecond : OneLine second) :
    OneLine (first ++ second) := by
  intro c hc
  rw [String.toList_append] at hc
  exact (List.mem_append.mp hc).elim (hfirst c) (hsecond c)

theorem oneLine_paramList {method : Method} (h : ∀ param ∈ method.params, OneLine param) :
    OneLine method.paramList := by
  have hcomma : OneLine ", " := by decide
  intro c hc
  rw [Method.paramList, String.toList_intercalate] at hc
  rcases Text.mem_join hc with hc | ⟨item, hitem, hc⟩
  · exact hcomma c hc
  · obtain ⟨param, hparam, rfl⟩ := List.mem_map.mp hitem
    exact h param hparam c hc

section Spaced

variable {model : Model} {indent : String}

/-- The strings of the entities of a spaced model hold no line break. -/
theorem oneLine_of_spaced (h : model.Spaced) {entity : Entity} (hentity : entity ∈ model.entities)
    {string : String} (hstring : string ∈ entity.strings) : OneLine string :=
  (h string (List.mem_flatMap.mpr ⟨entity, hentity, hstring⟩)).not_lineBreak

/-- A field's line is one line if its name and its type are. -/
theorem oneLine_fieldLine (hindent : OneLine indent) {field : Field}
    (h : ∀ string ∈ field.strings, OneLine string) : OneLine (fieldLine indent field) := by
  have hname : OneLine field.name := h _ (by simp [Field.strings])
  have htype : OneLine field.type := h _ (by simp [Field.strings])
  have hcolon : OneLine " : " := by decide
  unfold fieldLine
  split
  · exact hindent.append hname
  · exact ((hindent.append hname).append hcolon).append htype

/-- A method's line is one line if all it is made of is. -/
theorem oneLine_methodLine (hindent : OneLine indent) {method : Method}
    (h : ∀ string ∈ method.strings, OneLine string) : OneLine (methodLine indent method) := by
  have hname : OneLine method.name := h _ (by simp [Method.strings])
  have hresult : OneLine method.result := h _ (by simp [Method.strings])
  have hparams : OneLine method.paramList := oneLine_paramList fun param hparam =>
    h param (List.mem_cons_of_mem _ (List.mem_cons_of_mem _ hparam))
  have hopen : OneLine "(" := by decide
  have hclose : OneLine ") : " := by decide
  exact ((((hindent.append hname).append hopen).append hparams).append hclose).append hresult

/-- Each line of a block is one line if all the entity's texts are. -/
theorem oneLine_block (hindent : OneLine indent) {entity : Entity}
    (h : ∀ string ∈ entity.strings, OneLine string) :
    ∀ line ∈ block indent entity, OneLine line := by
  have hlabel : OneLine (entity.label ++ " \x7b") := by
    have hword : OneLine entity.kind.word := by cases entity.kind <;> decide
    have hspace : OneLine " " := by decide
    have hbrace : OneLine " \x7b" := by decide
    have hname : OneLine entity.name := h _ (Entity.mem_strings.mpr (Or.inl rfl))
    exact ((hword.append hspace).append hname).append hbrace
  have hclose : OneLine "\x7d" := by decide
  refine List.forall_mem_append.mpr ⟨List.forall_mem_append.mpr ⟨List.forall_mem_cons.mpr
    ⟨hlabel, List.forall_mem_map.mpr fun field hfield => ?_⟩,
    List.forall_mem_map.mpr fun method hmethod => ?_⟩, List.forall_mem_singleton.mpr hclose⟩
  · exact oneLine_fieldLine hindent fun string hstring =>
      h string (Entity.mem_strings.mpr (Or.inr (Or.inl ⟨field, hfield, hstring⟩)))
  · exact oneLine_methodLine hindent fun string hstring =>
      h string (Entity.mem_strings.mpr (Or.inr (Or.inr (Or.inl ⟨method, hmethod, hstring⟩))))

/-- Each line of a paragraph is one line if what is written in it is. -/
theorem oneLine_paragraph {written : List String} (h : ∀ line ∈ written, OneLine line) :
    ∀ line ∈ paragraph written, OneLine line := by
  have hempty : OneLine "" := by decide
  unfold paragraph
  split
  · exact List.forall_mem_nil _
  · exact List.forall_mem_append.mpr ⟨h, List.forall_mem_singleton.mpr hempty⟩

/-- The edges from the entities of a model lead between strings of the model. -/
theorem oneLine_edges (h : model.Spaced) (edges : Entity → List (String × String))
    (hedges : ∀ entity, ∀ edge ∈ edges entity, edge.1 ∈ entity.strings ∧ edge.2 ∈ entity.strings)
    {arrow : String} (harrow : OneLine arrow) :
    ∀ edge ∈ model.entities.flatMap edges, OneLine (edge.1 ++ arrow ++ edge.2) := by
  refine List.forall_mem_flatMap.mpr fun entity hentity edge hedge => ?_
  obtain ⟨hfirst, hsecond⟩ := hedges entity edge hedge
  exact ((oneLine_of_spaced h hentity hfirst).append harrow).append
    (oneLine_of_spaced h hentity hsecond)

/-- No line of the drawing of a spaced model holds a line break. -/
theorem oneLine_lines (h : model.Spaced) (hindent : OneLine indent) :
    ∀ line ∈ lines indent model, OneLine line := by
  have hempty : OneLine "" := by decide
  have hstart : OneLine "@startuml" := by decide
  have hend : OneLine "@enduml" := by decide
  have hname : ∀ entity : Entity, entity.name ∈ entity.strings := fun entity =>
    Entity.mem_strings.mpr (Or.inl rfl)
  -- every edge leads between strings of the entity that it starts or ends at
  have hinheritances : ∀ edge ∈ model.inheritances, OneLine (edge.1 ++ " <|-- " ++ edge.2) :=
    oneLine_edges h _ (fun entity => List.forall_mem_map.mpr fun base hbase =>
      ⟨Entity.mem_strings.mpr (Or.inr (Or.inr (Or.inr (Or.inl hbase)))), hname entity⟩) (by decide)
  have hrealizations : ∀ edge ∈ model.realizations, OneLine (edge.1 ++ " <|.. " ++ edge.2) :=
    oneLine_edges h _ (fun entity => List.forall_mem_map.mpr fun interface hinterface =>
      ⟨Entity.mem_strings.mpr (Or.inr (Or.inr (Or.inr (Or.inr (Or.inl hinterface))))),
        hname entity⟩) (by decide)
  have huses : ∀ edge ∈ model.uses, OneLine (edge.1 ++ " ..> " ++ edge.2) :=
    oneLine_edges h _ (fun entity => List.forall_mem_map.mpr fun used hused =>
      ⟨hname entity, Entity.mem_strings.mpr (Or.inr (Or.inr (Or.inr (Or.inr (Or.inr
        (List.mem_filter.mp hused).1)))))⟩) (by decide)
  simp only [lines, List.forall_mem_append, List.forall_mem_cons, List.forall_mem_flatMap]
  refine ⟨⟨⟨⟨⟨hstart, hempty, ?_⟩, fun entity hentity => ⟨?_, hempty, ?_⟩⟩, ?_⟩, ?_⟩, hend, ?_⟩
  · exact List.forall_mem_nil _
  · exact oneLine_block hindent fun string hstring => oneLine_of_spaced h hentity hstring
  · exact List.forall_mem_nil _
  · exact oneLine_paragraph (List.forall_mem_append.mpr
      ⟨List.forall_mem_map.mpr hinheritances, List.forall_mem_map.mpr hrealizations⟩)
  · exact oneLine_paragraph (List.forall_mem_map.mpr huses)
  · exact List.forall_mem_nil _

end Spaced

/-! ## The document -/

/-- Lines without breaks, each with a line break behind it, are the lines of the whole. -/
theorem lines_join {written : List String} (h : ∀ line ∈ written, OneLine line) :
    Text.lines (String.join (written.map (· ++ "\n"))).toList = written.map String.toList := by
  induction written with
  | nil => rfl
  | cons line rest ih =>
      obtain ⟨hline, hrest⟩ := List.forall_mem_cons.mp h
      rw [List.map_cons, String.join_cons, String.toList_append, String.toList_append,
        List.append_assoc]
      exact (Text.lines_append_break hline _).trans (congrArg _ (ih hrest))

/-- Each of them takes one line break. -/
theorem count_join {written : List String} (h : ∀ line ∈ written, OneLine line) :
    (String.join (written.map (· ++ "\n"))).toList.count '\n' = written.length := by
  induction written with
  | nil => rfl
  | cons line rest ih =>
      obtain ⟨hline, hrest⟩ := List.forall_mem_cons.mp h
      have hnone : line.toList.count '\n' = 0 :=
        List.count_eq_zero.mpr fun hmem => absurd (hline _ hmem) (by decide)
      rw [List.map_cons, String.join_cons, String.toList_append, String.toList_append,
        List.count_append, List.count_append, hnone, ih hrest, List.length_cons]
      exact Nat.add_comm ..

/-- Models of C# and TypeScript sources are spaced. -/
theorem spaced_ofContributions {contributions : List Contribution}
    (h : ∀ contribution ∈ contributions,
      contribution.language = .cSharp ∨ contribution.language = .typeScript) :
    (Model.ofContributions contributions).Spaced := by
  intro string hstring
  obtain ⟨contribution, hmem, finding, hfinding, htold⟩ :=
    Model.mem_strings_ofContributions hstring
  obtain ⟨language, source⟩ := contribution
  have hfact : finding.fact.Spaced := by
    rcases h _ hmem with rfl | rfl
    · obtain ⟨fact, hfact, rfl⟩ := List.mem_map.mp hfinding
      exact CSharp.spaced_facts source.text fact hfact
    · obtain ⟨fact, hfact, rfl⟩ := List.mem_map.mp hfinding
      exact TypeScript.spaced_facts source.text fact hfact
  exact hfact string htold

/-- However C# and TypeScript sources are laid out, no string of their model has a blank other than
a space. So the PlantUML document, with any indentation that does not break lines, is the texts of its
strokes, each with one line break behind it and none inside: each member and each edge stands on a
line of its own, and there are as many lines as are counted. -/
theorem render_ofContributions (contributions : List Contribution)
    (hlanguages : ∀ contribution ∈ contributions,
      contribution.language = .cSharp ∨ contribution.language = .typeScript)
    (indent : String) (hindent : OneLine indent) :
    let model := Model.ofContributions contributions
    (∀ string ∈ model.strings, Text.SpacesOnly string.toList) ∧
      render model indent = String.join ((strokes model).map (·.text indent ++ "\n")) ∧
      (∀ stroke ∈ strokes model, OneLine (stroke.text indent)) ∧
      Text.lines (render model indent).toList =
        (strokes model).map (fun stroke => (stroke.text indent).toList) ∧
      (strokes model).length = lineCount model ∧
      (render model indent).toList.count '\n' = lineCount model := by
  intro model
  -- no text of the model breaks a line, so that each stroke is one line of the drawing
  have hspaced : model.Spaced := spaced_ofContributions hlanguages
  have hlines := oneLine_lines hspaced hindent
  have hcount := length_lines indent model
  refine ⟨hspaced, ?_, ?_, ?_, ?_, (count_join hlines).trans hcount⟩
  · rw [render, lines_eq_strokes, List.map_map]
    rfl
  · intro stroke hstroke
    refine hlines _ ?_
    rw [lines_eq_strokes]
    exact List.mem_map_of_mem hstroke
  · rw [render, lines_join hlines, lines_eq_strokes, List.map_map]
    rfl
  · rw [← hcount, lines_eq_strokes, List.length_map]

/-- A class whose base, field and method run over several lines. -/
def barnText : Text :=
  ("class Barn :\n\tShed\n\x7b\n  Map<int,\n\tCow> cows;\n  void\tFeed(Cow\n    cow) \x7b \x7d\n" ++
    "\x7d\n").toList

/-- An interface with a tab before a type. -/
def cowText : Text := "interface Cow \x7b\n  name:\tstring\n\x7d\n".toList

/-- The class in C#, then the interface in TypeScript. -/
def barnRun : List Contribution := [
  ⟨.cSharp, { text := barnText }⟩,
  ⟨.typeScript, { text := cowText }⟩]

/-- The model of both. What is not declared, here the map, is used and yet not drawn. -/
def barnModel : Model where
  entities := [
    { name := "Barn", kind := .cls, fields := [⟨"cows", "Map<int, Cow>"⟩],
      methods := [⟨"Feed", "void", ["Cow"]⟩], bases := .ofList ["Shed"],
      dependencies := .ofList ["Cow", "Map"] },
    { name := "Cow", kind := .interface, fields := [⟨"name", "string"⟩] }]

/-- The drawing, line by line: the type and the parameter that were broken stand on one line each. -/
theorem barn_drawing :
    (∀ contribution ∈ barnRun,
      contribution.language = .cSharp ∨ contribution.language = .typeScript) ∧
      OneLine "  " ∧
      (∀ string ∈ (Model.ofContributions barnRun).strings, Text.SpacesOnly string.toList) ∧
      render (Model.ofContributions barnRun) "  " = String.join ([
        "@startuml", "",
        "class Barn \x7b", "  cows : Map<int, Cow>", "  Feed(Cow) : void", "\x7d", "",
        "interface Cow \x7b", "  name : string", "\x7d", "",
        "Shed <|-- Barn", "",
        "Barn ..> Cow", "",
        "@enduml"].map (· ++ "\n")) ∧
      (render (Model.ofContributions barnRun) "  ").toList.count '\n' = 16 := by
  have hlanguages : ∀ contribution ∈ barnRun,
      contribution.language = .cSharp ∨ contribution.language = .typeScript := by
    simp [barnRun]
  have hindent : OneLine "  " := by decide
  have hmodel : Model.ofContributions barnRun = barnModel := by decide +kernel
  obtain ⟨hspaced, hrender, -, -, -, hbreaks⟩ :=
    render_ofContributions barnRun hlanguages "  " hindent
  refine ⟨hlanguages, hindent, hspaced, ?_, hbreaks.trans (by rw [hmodel]; decide)⟩
  rw [hrender, hmodel]
  exact congrArg String.join (by decide)

end PlantUml

end ClassDiagram
