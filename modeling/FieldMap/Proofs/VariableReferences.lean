import FieldMap.Proofs.CompletedSheets
import FieldMap.Proofs.SheetRows
import FieldMap.Proofs.TargetRows
import FieldMap.Proofs.ValueTemplates
import FieldMap.Generation

/-!
Variables in a sheet for XML output. The sheet declares the variables of the set under names made
from their labels, and an attribute refers to a variable by a name made in the same way. Which
references are written is read off the tags of the template, which references are reported off the
list of mappings: so every reference that is written is declared or reported.
-/

namespace FieldMap.Markup

def Inline.tags : Inline → List Tag
  | .empty tag => [tag]
  | .text tag _ => [tag]
  | .around tag content => tag :: content.tags

mutual

def tags : Markup → List Tag
  | .line element => element.tags
  | .block tag body => tag :: allTags body
  | .comment _ => []

def allTags : List Markup → List Tag
  | [] => []
  | m :: ms => m.tags ++ allTags ms

end

theorem mem_allTags {t : Tag} {ms : List Markup} : t ∈ allTags ms ↔ ∃ m ∈ ms, t ∈ m.tags := by
  have collected : allTags ms = ms.flatMap tags := Trees.eq_flatMap rfl (fun _ _ => rfl) ms
  rw [collected, List.mem_flatMap]

theorem allTags_singleton (m : Markup) : allTags [m] = m.tags := by
  rw [allTags, allTags, List.append_nil]

end FieldMap.Markup

namespace FieldMap.Stylesheet.XmlSheet

open Markup (Attr Tag Inline allTags mem_allTags allTags_singleton)
open Target (Node Row located)

def structural : List (Text × List Text) :=
  [("xsl:for-each", ["select".toList]), ("xsl:value-of", ["select".toList]),
    ("xsl:when", ["test".toList]), ("xsl:choose", []), ("xsl:otherwise", []), ("xsl:comment", [])]

def IsStructural (t : Tag) : Prop :=
  (t.name, t.attrs.map (·.name)) ∈ structural

instance (t : Tag) : Decidable (IsStructural t) :=
  inferInstanceAs (Decidable (_ ∈ _))

theorem isStructural_instruction {name attr : Text} (h : (name, [attr]) ∈ structural) (value : Text) :
    IsStructural (instruction name attr value) :=
  h

/-- Lines that show some elements, all of them and no others; instructions may stand around them. -/
structure Bears (lines : List Markup) (own : Tag → Prop) : Prop where
  written : ∀ t, own t → t ∈ allTags lines
  covered : ∀ t ∈ allTags lines, own t ∨ IsStructural t

theorem Bears.congr {lines : List Markup} {own other : Tag → Prop} (h : Bears lines own)
    (same : ∀ t, own t ↔ other t) : Bears lines other where
  written t ht := h.written t ((same t).mpr ht)
  covered t ht := (h.covered t ht).imp_left (same t).mp

theorem Bears.append {lines others : List Markup} {own own' : Tag → Prop} (h : Bears lines own)
    (h' : Bears others own') : Bears (lines ++ others) fun t => own t ∨ own' t := by
  have tags {t : Tag} : t ∈ allTags (lines ++ others) ↔ t ∈ allTags lines ∨ t ∈ allTags others := by
    simp only [mem_allTags, List.mem_append, or_and_right, exists_or]
  constructor
  · intro t ht
    exact tags.mpr (ht.imp (h.written t) (h'.written t))
  · intro t ht
    rcases tags.mp ht with first | second
    · exact (h.covered t first).imp_left Or.inl
    · exact (h'.covered t second).imp_left Or.inr

theorem bears_nil : Bears [] fun _ => False :=
  ⟨by simp, by simp [allTags]⟩

theorem bears_flatMap {α : Type} {as : List α} {lines : α → List Markup} {own : α → Tag → Prop}
    (h : ∀ a ∈ as, Bears (lines a) (own a)) :
    Bears (as.flatMap lines) fun t => ∃ a ∈ as, own a t := by
  induction as with
  | nil => exact bears_nil.congr (by simp)
  | cons a as ih =>
    rw [List.forall_mem_cons] at h
    exact (h.1.append (ih h.2)).congr (by simp)

theorem bears_looped {path? : Option Text} {context : Context} {body : Context → List Markup}
    {own : Tag → Prop} (h : ∀ inner, Bears (body inner) own) : Bears (looped path? context body) own := by
  cases path? with
  | none => exact h context
  | some path =>
    have tags : allTags (looped (some path) context body) =
        instruction "xsl:for-each" "select" (loopSelect path context) :: allTags (body (some path)) :=
      allTags_singleton _
    constructor
    · intro t ht
      rw [tags]
      exact List.mem_cons_of_mem _ ((h _).written t ht)
    · intro t ht
      rw [tags] at ht
      rcases List.mem_cons.mp ht with rfl | inside
      · exact Or.inr (isStructural_instruction (by decide) _)
      · exact (h _).covered t inside

theorem bears_element {tag : Tag} {empty : Bool} {body : List Markup} {own : Tag → Prop}
    (bare : empty = true → body = []) (h : Bears body own) :
    Bears [element tag empty body] fun t => t = tag ∨ own t := by
  have tags : allTags [element tag empty body] = tag :: allTags body := by
    rw [allTags_singleton, element]
    split
    · next e =>
      rw [bare e]
      rfl
    · rfl
  constructor
  · intro t ht
    rw [tags, List.mem_cons]
    exact ht.imp_right (h.written t)
  · intro t ht
    rw [tags] at ht
    rcases List.mem_cons.mp ht with same | inside
    · exact Or.inl (Or.inl same)
    · exact (h.covered t inside).imp_left Or.inr

theorem bears_line {m : Markup} {tag : Tag} (h : tag ∈ m.tags)
    (covered : ∀ t ∈ m.tags, t = tag ∨ IsStructural t) : Bears [m] (· = tag) := by
  constructor
  · rintro t rfl
    rw [allTags_singleton]
    exact h
  · rw [allTags_singleton]
    exact covered

theorem isStructural_valueOf (select : Text) :
    IsStructural (instruction "xsl:value-of" "select" select) :=
  isStructural_instruction (by decide) _

theorem isStructural_when (select : Text) : IsStructural (instruction "xsl:when" "test" select) :=
  isStructural_instruction (by decide) _

theorem bears_selectedValue (tag : Tag) (m : Mapping) (select : Text) :
    Bears [selectedValue tag m select] (· = tag) := by
  have inside (expression : Text) : Bears [.line (.around tag (valueOf expression))] (· = tag) := by
    apply bears_line
    · exact List.mem_cons_self
    · simp only [Markup.tags, Inline.tags, valueOf, List.forall_mem_cons]
      exact ⟨Or.inl trivial, Or.inr (isStructural_valueOf _), by simp⟩
  have value := isStructural_valueOf
  have test := isStructural_when select
  unfold selectedValue
  split
  · exact inside select
  · exact inside (twoDecimals select)
  · apply bears_line
    · exact List.mem_cons_self
    · simp only [dateChoice, valueOf, Markup.tags, allTags, Inline.tags, List.cons_append,
        List.nil_append, List.forall_mem_cons]
      exact ⟨Or.inl trivial, Or.inr (by decide), Or.inr test, Or.inr (value _), Or.inr (by decide),
        Or.inr (value _), by simp⟩
  · apply bears_line
    · simp only [Markup.tags, allTags, Inline.tags, List.cons_append, List.mem_cons, true_or, or_true]
    · simp only [valueOf, Markup.tags, allTags, Inline.tags, List.cons_append, List.nil_append,
        List.forall_mem_cons]
      exact ⟨Or.inr (by decide), Or.inr test, Or.inl trivial, Or.inr (value _), Or.inr (by decide),
        Or.inr (by decide), by simp⟩

theorem bears_fieldBody (name : Text) (m : Mapping) (context : Context) :
    Bears [fieldBody name m context] (· = fieldTag name m) := by
  have alone {content : Inline} (h : content.tags = [fieldTag name m]) :
      Bears [.line content] (· = fieldTag name m) := by
    apply bears_line
    · simp [Markup.tags, h]
    · simp [Markup.tags, h]
  simp only [fieldBody]
  split
  · exact alone rfl
  · split
    · exact alone rfl
    · split
      · exact alone rfl
      · exact alone rfl
    · exact bears_selectedValue _ m _

theorem bears_field (name : Text) (context : Context) (m : Mapping) :
    Bears (field name context m) (· = fieldTag name m) :=
  bears_looped (bears_fieldBody name m)

def OwnTag : Node → Tag → Prop
  | .component name _ rows _, t => t = componentTag name (Target.definition? rows)
  | .leaf name _ rows, t => ∃ row ∈ rows, t = fieldTag name row.mapping

theorem nodes_of_isEmpty {ns : List Node} (context : Context) (h : ns.isEmpty = true) :
    nodes ns context = [] := by
  rw [List.isEmpty_iff.mp h, nodes]

mutual

theorem bears_node (n : Node) (context : Context) :
    Bears (node n context) fun t => ∃ x ∈ n.located, OwnTag x.2 t := by
  cases n with
  | component name level rows children =>
    rw [node]
    refine bears_looped fun inner => ?_
    refine (bears_element (nodes_of_isEmpty inner) (bears_nodes children inner)).congr fun t => ?_
    simp [Node.located, OwnTag]
  | leaf name level rows =>
    rw [node]
    refine (bears_flatMap fun row _ => bears_field name context row.mapping).congr fun t => ?_
    simp [Node.located, OwnTag]

theorem bears_nodes (ns : List Node) (context : Context) :
    Bears (nodes ns context) fun t => ∃ x ∈ located ns, OwnTag x.2 t := by
  cases ns with
  | nil =>
    rw [nodes]
    exact bears_nil.congr (by simp [located])
  | cons n ns =>
    rw [nodes, located]
    refine ((bears_node n context).append (bears_nodes ns context)).congr fun t => ?_
    simp [or_and_right, exists_or]

end

/-- The elements of a sheet that carry attributes: the root element, the components and the fields.
Each is given by its tag, the text that names it in reports and its attributes. -/
inductive Carries (root : Option RootElement) (tree : List Node) : Tag → Text → List Attribute → Prop
  | root {r : RootElement} : r ∈ root → Text.allBlank r.name = false →
    Carries root tree ⟨Markup.elementName r.name, r.attributes.map attributeMarkup⟩ r.name r.attributes
  | component {path : List Text} {name : Text} {level : Nat} {rows : List Row} {children : List Node}
    {row : Row} : (path, .component name level rows children) ∈ located tree →
    Target.definition? rows = some row →
    Carries root tree (componentTag name (some row)) row.mapping.effectivePath row.mapping.attributes
  | field {path : List Text} {name : Text} {level : Nat} {rows : List Row} {row : Row} :
    (path, .leaf name level rows) ∈ located tree → row ∈ rows →
    Carries root tree (fieldTag name row.mapping) row.mapping.effectivePath row.mapping.attributes

section Carries

variable {root : Option RootElement} {tree : List Node} {tag : Tag} {owner : Text}
  {attributes : List Attribute}

theorem Carries.attributeMarkup_mem (h : Carries root tree tag owner attributes) {a : Attribute}
    (ha : a ∈ attributes) : attributeMarkup a ∈ tag.attrs := by
  cases h with
  | root => exact List.mem_map_of_mem ha
  | component => exact List.mem_map_of_mem ha
  | field => exact List.mem_append_left _ (List.mem_map_of_mem ha)

theorem bears_templateBody :
    Bears (templateBody root tree) fun t =>
      (∃ r ∈ root, Text.allBlank r.name = false ∧
        t = ⟨Markup.elementName r.name, r.attributes.map attributeMarkup⟩) ∨
      ∃ x ∈ located tree, OwnTag x.2 t := by
  have inner := bears_nodes tree none
  cases root with
  | none => exact inner.congr (by simp)
  | some r =>
    simp only [templateBody]
    split
    · next blank => exact inner.congr (by simp [blank])
    · next named => exact (bears_element (nodes_of_isEmpty none) inner).congr (by simp [named])

theorem Carries.mem_template (h : Carries root tree tag owner attributes) :
    tag ∈ allTags (templateBody root tree) := by
  apply bears_templateBody.written
  cases h with
  | root given named => exact Or.inl ⟨_, given, named, rfl⟩
  | component found defines => exact Or.inr ⟨_, found, by rw [OwnTag, defines]⟩
  | field found shown => exact Or.inr ⟨_, found, _, shown, rfl⟩

theorem exists_carries (h : tag ∈ allTags (templateBody root tree)) {w : Attr} (hw : w ∈ tag.attrs) :
    IsStructural tag ∨ ∃ owner attributes, Carries root tree tag owner attributes := by
  rcases bears_templateBody.covered tag h with own | instructs
  · right
    rcases own with ⟨r, given, named, rfl⟩ | ⟨⟨path, n⟩, found, own⟩
    · exact ⟨_, _, .root given named⟩
    · cases n with
      | leaf name level rows =>
        obtain ⟨row, shown, rfl⟩ := own
        exact ⟨_, _, .field found shown⟩
      | component name level rows children =>
        cases defines : Target.definition? rows with
        | none =>
          -- Without a defining row a component has no attributes.
          rw [OwnTag, defines] at own
          rw [own] at hw
          cases hw
        | some row =>
          rw [OwnTag, defines] at own
          rw [own]
          exact ⟨_, _, .component found defines⟩
  · exact Or.inl instructs

end Carries

structure Reference where
  owner : Text
  attr : Text
  label : Text
deriving DecidableEq

def reference? (owner : Text) (a : Attribute) : Option Reference :=
  match a.value with
  | .variable label => some ⟨owner, a.name, label⟩
  | _ => none

def references (set : MappingSet) (mappings : List Mapping) : List Reference :=
  (set.rootElement.toList.flatMap fun r => r.attributes.filterMap (reference? r.name)) ++
    mappings.flatMap fun m => m.attributes.filterMap (reference? m.effectivePath)

namespace Reference

/-- A variable with a name made from another label counts if the two names are the same. -/
def IsDeclared (globals : List Variable) (r : Reference) : Prop :=
  ∃ v ∈ globals, Markup.elementName v.name = Markup.elementName r.label

instance (globals : List Variable) (r : Reference) : Decidable (r.IsDeclared globals) :=
  inferInstanceAs (Decidable (∃ v ∈ globals, _))

def report (r : Reference) : Diagnostic :=
  .warning .unknownVariable
    ("attribute '" ++ r.attr ++ "' on '" ++ r.owner ++ "' references undeclared variable '$" ++
      r.label ++ "'")

end Reference

def undeclared? (globals : List Variable) (owner : Text) (a : Attribute) : Option Diagnostic :=
  (reference? owner a).bind fun r => if r.IsDeclared globals then none else some r.report

theorem filterMap_undeclared? (globals : List Variable) (owner : Text) (attributes : List Attribute) :
    attributes.filterMap (undeclared? globals owner) =
      ((attributes.filterMap (reference? owner)).filter fun r => ¬ r.IsDeclared globals).map
        Reference.report := by
  induction attributes with
  | nil => rfl
  | cons a attributes ih =>
    rw [List.filterMap_cons, List.filterMap_cons, ih, undeclared?]
    cases reference? owner a with
    | none => rfl
    | some r => by_cases declared : r.IsDeclared globals <;> simp [declared]

theorem undeclaredDiagnostics_eq (set : MappingSet) (mappings : List Mapping) :
    undeclaredDiagnostics set mappings =
      ((references set mappings).filter fun r => ¬ r.IsDeclared set.globals).map Reference.report := by
  have said : undeclaredDiagnostics set mappings =
      (attributesByOwner set mappings).filterMap fun x => undeclared? set.globals x.1 x.2 := by
    unfold undeclaredDiagnostics
    apply List.filterMap_congr
    rintro ⟨owner, name, value⟩ _
    rcases value with text | label | expression
    · rfl
    · have declared : (set.globals.map fun v => Markup.elementName v.name).contains
          (Markup.elementName label) = true ↔ Reference.IsDeclared set.globals ⟨owner, name, label⟩ := by
        rw [List.contains_iff_mem, List.mem_map]
        rfl
      simp only [undeclared?, reference?, Option.bind_some, declared]
      rfl
    · rfl
  rw [said, attributesByOwner, references]
  simp only [List.filterMap_append, List.filterMap_flatMap, List.filterMap_map, Function.comp_def,
    filterMap_undeclared?, List.filter_append, List.map_append, List.filter_flatMap, List.map_flatMap]

theorem mem_references_of_mapping {set : MappingSet} {mappings : List Mapping} {m : Mapping}
    (hm : m ∈ mappings) {a : Attribute} (ha : a ∈ m.attributes) {x : Text} (h : a.value = .variable x) :
    ⟨m.effectivePath, a.name, x⟩ ∈ references set mappings := by
  apply List.mem_append_right
  refine List.mem_flatMap_of_mem hm (List.mem_filterMap.mpr ⟨a, ha, ?_⟩)
  simp only [reference?, h]

theorem Carries.mem_references {set : MappingSet} {ms : List Mapping} {tag : Tag} {owner : Text}
    {attributes : List Attribute}
    (h : Carries set.rootElement (Target.build (Target.complete ms)) tag owner attributes)
    {a : Attribute} (ha : a ∈ attributes) {x : Text} (refers : a.value = .variable x) :
    ⟨owner, a.name, x⟩ ∈ references set ms := by
  -- An element that carries attributes is the root element or shows a mapping of the table: what
  -- fills a gap has no attributes.
  have of_row {y : List Text × Node} {row : Row}
      (found : y ∈ located (Target.build (Target.complete ms))) (own : row ∈ y.2.own)
      (held : a ∈ row.mapping.attributes) :
      ⟨row.mapping.effectivePath, a.name, x⟩ ∈ references set ms := by
    have placed := (Target.mem_rowsAt.mp ((Target.own_sublist found).subset own)).1
    rcases Target.mem_complete (List.mem_of_getElem? placed) with given | ⟨_, _, _, _, _, filled⟩
    · exact mem_references_of_mapping given held refers
    · rw [filled, Mapping.attributes_placeholder] at held
      cases held
  cases h with
  | root given =>
    apply List.mem_append_left
    refine List.mem_flatMap_of_mem (Option.mem_toList.mpr given) (List.mem_filterMap.mpr ⟨a, ha, ?_⟩)
    simp only [reference?, refers]
  | component found defines => exact of_row found (by simp [Node.own, defines]) ha
  | field found shown => exact of_row found shown ha

theorem text_of_variable {a : Attribute} {x : Text} (h : a.value = .variable x) :
    (attributeMarkup a).text =
      " " ++ Markup.elementName a.name ++ "=\"\x7b$" ++ Markup.elementName x ++ "\x7d\"" := by
  have written : (attributeMarkup a).written = "\x7b$" ++ Markup.elementName x ++ "\x7d" := by
    have name := Markup.escapeAttr_elementName x
    simp only [Markup.escapeAttr] at name
    rw [attributeMarkup, Attr.of, h, attributeTemplate, Markup.escapeAttr, List.flatMap_append,
      List.flatMap_append, name]
    rfl
  rw [Attr.text, written]
  simp [attributeMarkup, Attr.of]

theorem variableLine_eq (v : Variable) : ∃ select, variableLine v =
    .line (.empty ⟨"xsl:variable", [⟨"name", Markup.elementName v.name⟩, select]⟩) := by
  have name : Attr.of "name" (Markup.elementName v.name) = ⟨"name", Markup.elementName v.name⟩ := by
    rw [Attr.of, Markup.escapeAttr_elementName]
  exact ⟨_, by rw [← name]; rfl⟩

theorem filter_unknownVariable_prepared (fields : List Mapping) :
    (Prepared.ofFields fields).diagnostics.filter (·.kind = .unknownVariable) = [] := by
  rw [List.filter_eq_nil_iff]
  intro d hd
  obtain ⟨r, hr, said⟩ := List.mem_flatMap.mp hd
  obtain ⟨m, _, number, rfl⟩ := Prepared.exists_of_mem_rows hr
  have issue {path : Path.Normalized} (h : d ∈ Prepared.issueDiagnostics path) :
      d.kind = .invalidXPath := by
    obtain ⟨_, _, rfl⟩ := List.mem_map.mp h
    rfl
  have kind : d.kind = .malformedInput ∨ d.kind = .invalidXPath := by
    unfold Prepared.row at said
    split at said
    · rw [List.mem_singleton.mp said]
      exact Or.inl rfl
    · split at said
      · exact Or.inr (issue said)
      · exact Or.inr ((List.mem_append.mp said).elim issue issue)
  rcases kind with kind | kind <;> rw [kind] <;> decide

theorem filter_unknownVariable_shadowed (tree : List Node) :
    (shadowedDiagnostics tree).filter (·.kind = .unknownVariable) = [] := by
  rw [List.filter_eq_nil_iff]
  intro d hd
  obtain ⟨row, _, rfl⟩ := List.mem_map.mp hd
  exact Bool.false_ne_true

theorem filter_unknownVariable (set : MappingSet) (options : Options) :
    (generate .xml set options).diagnostics.filter (·.kind = .unknownVariable) =
      ((references set (Prepared.ofFields set.fields).mappings).filter fun r =>
        ¬ r.IsDeclared set.globals).map Reference.report := by
  -- The rows that completion adds have no attributes, so only the prepared ones count.
  have undeclared : undeclaredDiagnostics set (sheetRows set.fields) =
      undeclaredDiagnostics set (Prepared.ofFields set.fields).mappings :=
    undeclaredDiagnostics_append set _ _
  have parts : (generate .xml set options).diagnostics =
      (Prepared.ofFields set.fields).diagnostics ++
        (shadowedDiagnostics (Target.build (sheetRows set.fields)) ++
          undeclaredDiagnostics set (sheetRows set.fields)) :=
    rfl
  rw [parts, List.filter_append, List.filter_append, filter_unknownVariable_prepared,
    filter_unknownVariable_shadowed, undeclared, undeclaredDiagnostics_eq, List.nil_append,
    List.nil_append]
  rw [List.filter_eq_self]
  intro d hd
  obtain ⟨r, _, rfl⟩ := List.mem_map.mp hd
  rfl

/-- Every variable that an attribute refers to is declared by a line of the sheet or reported with the
attribute, and nothing else is reported so. The elements that may refer to variables are all in the
template, and it has no others with attributes. -/
theorem variable_references_accounted (set : MappingSet) (options : Options) :
    let tree := Target.build (sheetRows set.fields)
    let template := templateBody set.rootElement tree
    let report := generate .xml set options
    report.stylesheet = sheetText options.indent (header set options) (body set tree) ∧
      .block (templateTag "/") template ∈ body set tree ∧
      (∀ tag ∈ allTags template, tag.attrs ≠ [] → IsStructural tag ∨
        ∃ owner attributes, Carries set.rootElement tree tag owner attributes) ∧
      (∀ tag owner attributes, Carries set.rootElement tree tag owner attributes →
        tag ∈ allTags template ∧ ∀ a ∈ attributes, ∀ x, a.value = .variable x →
          attributeMarkup a ∈ tag.attrs ∧
          (attributeMarkup a).text =
            " " ++ Markup.elementName a.name ++ "=\"\x7b$" ++ Markup.elementName x ++ "\x7d\"" ∧
          ((∃ select, .line (.empty ⟨"xsl:variable", [⟨"name", Markup.elementName x⟩, select]⟩) ∈
              body set tree) ∨
            Reference.report ⟨owner, a.name, x⟩ ∈ report.diagnostics)) ∧
      report.diagnostics.filter (·.kind = .unknownVariable) =
        ((references set (Prepared.ofFields set.fields).mappings).filter fun r =>
          ¬ r.IsDeclared set.globals).map Reference.report := by
  intro tree template report
  have reported := filter_unknownVariable set options
  refine ⟨rfl, by simp [body, template], ?_, ?_, reported⟩
  · intro tag inside attrs
    obtain ⟨w, hw⟩ := List.exists_mem_of_ne_nil _ attrs
    exact exists_carries inside hw
  · intro tag owner attributes carries
    refine ⟨carries.mem_template, ?_⟩
    intro a ha x refers
    refine ⟨carries.attributeMarkup_mem ha, text_of_variable refers, ?_⟩
    by_cases declared : Reference.IsDeclared set.globals ⟨owner, a.name, x⟩
    · obtain ⟨v, given, same⟩ := declared
      obtain ⟨select, line⟩ := variableLine_eq v
      left
      refine ⟨select, ?_⟩
      rw [← same, ← line]
      exact List.mem_append_left _ (List.mem_cons_of_mem _ (List.mem_map_of_mem given))
    · right
      have listed : Reference.report ⟨owner, a.name, x⟩ ∈
          report.diagnostics.filter (·.kind = .unknownVariable) := by
        rw [reported]
        apply List.mem_map_of_mem
        exact List.mem_filter.mpr ⟨carries.mem_references ha refers, decide_eq_true declared⟩
      exact List.mem_of_mem_filter listed

def rateAttribute : Attribute :=
  ⟨"rate", .variable "tax rate"⟩

def totalMapping : Mapping where
  sourcePath := "//order/total"
  targetName := "Total"
  targetPath := some "Order/Total"
  attributes := [rateAttribute]

def priceSet : MappingSet where
  fields := [totalMapping,
    { sourcePath := "//order/net", targetName := "Net", targetPath := some "Order/Total/Net" }]
  rootElement := some ⟨"Prices", [⟨"unit", .variable "sales unit"⟩]⟩
  globals := [⟨"sales_unit", .literal "box"⟩]

theorem total_carries :
    Carries priceSet.rootElement (Target.build (sheetRows priceSet.fields))
      (componentTag "Total" (some ⟨0, totalMapping⟩)) "Order/Total" [rateAttribute] := by
  have below : (!(Target.childrenAt (sheetRows priceSet.fields) ["Order", "Total"]).isEmpty ||
      Target.allComponents (Target.rowsAt (sheetRows priceSet.fields) ["Order", "Total"])) = true := by
    decide +kernel
  have found := Target.mem_located_build.mpr
    ⟨["Order"], "Total", rfl, ⟨totalMapping, by decide +kernel, by decide +kernel⟩, (if_pos below).symm⟩
  have defines : Target.definition? (Target.rowsAt (sheetRows priceSet.fields) ["Order", "Total"]) =
      some ⟨0, totalMapping⟩ := by
    decide +kernel
  have path : totalMapping.effectivePath = "Order/Total" := by decide +kernel
  exact path ▸ Carries.component found defines

theorem priceSet_references_accounted :
    let report := generate .xml priceSet {}
    let tag := componentTag "Total" (some ⟨0, totalMapping⟩)
    Carries priceSet.rootElement (Target.build (sheetRows priceSet.fields)) tag "Order/Total"
        [rateAttribute] ∧
      rateAttribute.value = .variable "tax rate" ∧
      tag ∈ allTags (templateBody priceSet.rootElement (Target.build (sheetRows priceSet.fields))) ∧
      tag.attrs ≠ [] ∧
      (attributeMarkup rateAttribute).text = " rate=\"\x7b$tax_rate\x7d\"".toList ∧
      report.diagnostics.filter (·.kind = .unknownVariable) =
        [.warning .unknownVariable
          "attribute 'rate' on 'Order/Total' references undeclared variable '$tax rate'"] := by
  obtain ⟨_, _, _, carried, reported⟩ := variable_references_accounted priceSet {}
  obtain ⟨inside, refers⟩ := carried _ _ _ total_carries
  obtain ⟨_, text, _⟩ := refers rateAttribute List.mem_cons_self _ rfl
  refine ⟨total_carries, rfl, inside, by decide, text.trans (by decide), reported.trans ?_⟩
  decide +kernel

end FieldMap.Stylesheet.XmlSheet
