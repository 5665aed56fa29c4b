import FieldMap.Proofs.SheetValidity

/-!
The stylesheet for XML output has the shape of the target tree. Without instructions and text, its
template holds one element for each component and one for each row of a leaf, nested as in the tree
and inside the root element if one is named. Each of these elements stands inside as many loops as
there are rows that repeat on the way to it.
-/

namespace FieldMap.Stylesheet

open Markup (Tag Inline)
open Target (Node Row Every)
open Xml hiding Attr Node

structure ShapeLabel where
  name : QName
  loops : Nat
deriving DecidableEq

/-- A literal element of a stylesheet: its name, the number of loops around it and the literal elements
directly inside it. -/
abbrev Shape := LabelledTree ShapeLabel

def Shape.element (name : QName) (loops : Nat) (children : List Shape) : Shape :=
  .node ⟨name, loops⟩ children

def loopsInside (name : QName) (loops : Nat) : Nat :=
  if name.base = "for-each".toList then loops + 1 else loops

mutual

/-- What is left of a node without instructions and text. The elements inside an instruction are kept in
its place. -/
def erase (loops : Nat) : Xml.Node → List Shape
  | .element name _ _ children =>
    if name.space = "xsl".toList then eraseAll (loopsInside name loops) children
    else [.element name loops (eraseAll loops children)]
  | _ => []

def eraseAll (loops : Nat) : List Xml.Node → List Shape
  | [] => []
  | n :: ns => erase loops n ++ eraseAll loops ns

end

def template? (pattern : Text) : Xml.Node → Option (List Xml.Node)
  | .element name _ attrs inner =>
    if name = ⟨"xsl", "template"⟩ ∧ ⟨none, "match", pattern⟩ ∈ attrs then some inner else none
  | _ => none

def templates (pattern : Text) : Xml.Node → List (List Xml.Node)
  | .element _ _ _ children => children.filterMap (template? pattern)
  | _ => []

def loopsFor (row : Option Row) (loops : Nat) : Nat :=
  if row.any (·.mapping.repeats) then loops + 1 else loops

def elementShape (label : Text) (loops : Nat) (children : List Shape) : Shape :=
  .element ⟨[], Markup.elementName label⟩ loops children

mutual

def nodeShapes (loops : Nat) : Node → List Shape
  | .component name _ rows children =>
    let inner := loopsFor (Target.definition? rows) loops
    [elementShape name inner (treeShapes inner children)]
  | .leaf name _ rows => rows.map fun row => elementShape name (loopsFor (some row) loops) []

def treeShapes (loops : Nat) : List Node → List Shape
  | [] => []
  | n :: ns => nodeShapes loops n ++ treeShapes loops ns

end

/-- The elements of the whole output: the tree, inside the root element if one is named. -/
def outputShapes (root : Option RootElement) (tree : List Node) : List Shape :=
  match root with
  | none => treeShapes 0 tree
  | some r =>
    if Text.allBlank r.name then treeShapes 0 tree else [elementShape r.name 0 (treeShapes 0 tree)]

def tagShapes (t : Tag) (loops : Nat) (inner : Nat → List Shape) : List Shape :=
  if (wordName t.name).space = "xsl".toList then inner (loopsInside (wordName t.name) loops)
  else [.element (wordName t.name) loops (inner loops)]

def inlineShapes (loops : Nat) : Inline → List Shape
  | .empty tag => tagShapes tag loops fun _ => []
  | .text tag _ => tagShapes tag loops fun _ => []
  | .around tag content => tagShapes tag loops fun l => inlineShapes l content

mutual

/-- The literal elements of markup, which do not depend on its layout. -/
def markupShapes (loops : Nat) : Markup → List Shape
  | .line element => inlineShapes loops element
  | .block tag body => tagShapes tag loops fun l => linesShapes l body
  | .comment _ => []

def linesShapes (loops : Nat) : List Markup → List Shape
  | [] => []
  | m :: ms => markupShapes loops m ++ linesShapes loops ms

end

section Nodes

variable (scope : Scope) (loops : Nat)

theorem eraseAll_append (ns ms : List Xml.Node) :
    eraseAll loops (ns ++ ms) = eraseAll loops ns ++ eraseAll loops ms :=
  Trees.append rfl (fun _ _ => rfl) ns ms

theorem eraseAll_text (t : Text) : eraseAll loops [.text t] = [] := rfl

theorem erase_node (t : Tag) {children : List Xml.Node} {inner : Nat → List Shape}
    (h : ∀ l, eraseAll l children = inner l) :
    erase loops (t.node scope children) = tagShapes t loops inner := by
  rw [Tag.node, erase, tagShapes, h, h]

theorem erase_inline (e : Inline) : erase loops (e.node scope) = inlineShapes loops e := by
  induction e generalizing loops with
  | empty tag => exact erase_node scope loops tag fun _ => rfl
  | text tag content =>
    refine erase_node scope loops tag fun l => ?_
    unfold Markup.textNodes
    split <;> rfl
  | around tag content ih =>
    refine erase_node scope loops tag fun l => ?_
    rw [eraseAll, eraseAll, List.append_nil, ih]

mutual

theorem eraseAll_nodes (indent depth : Nat) (m : Markup) (loops : Nat) :
    eraseAll loops (m.nodes scope indent depth) = markupShapes loops m := by
  cases m with
  | line element =>
    rw [Markup.nodes, eraseAll, eraseAll, eraseAll, List.append_nil, erase_inline]
    rfl
  | block tag body =>
    have inner (l : Nat) : eraseAll l (Markup.allNodes scope indent (depth + 1) body ++
        [.text (Markup.gap indent depth)]) = linesShapes l body := by
      rw [eraseAll_append, eraseAll_allNodes indent (depth + 1) body l, eraseAll_text,
        List.append_nil]
    rw [Markup.nodes, eraseAll, eraseAll, eraseAll, List.append_nil,
      erase_node scope loops tag inner]
    rfl
  | comment text => rfl

theorem eraseAll_allNodes (indent depth : Nat) (ms : List Markup) (loops : Nat) :
    eraseAll loops (Markup.allNodes scope indent depth ms) = linesShapes loops ms := by
  cases ms with
  | nil => rfl
  | cons m ms =>
    rw [Markup.allNodes, eraseAll_append, eraseAll_nodes indent depth m loops,
      eraseAll_allNodes indent depth ms loops, linesShapes]

end

end Nodes

def IsSilent (name : Text) : Prop :=
  (wordName name).space = "xsl".toList ∧ (wordName name).base ≠ "for-each".toList

instance (name : Text) : Decidable (IsSilent name) :=
  inferInstanceAs (Decidable (_ ∧ _))

section Tags

variable {inner : Nat → List Shape} (loops : Nat)

theorem tagShapes_silent {t : Tag} (h : IsSilent t.name) : tagShapes t loops inner = inner loops := by
  rw [tagShapes, if_pos h.1, loopsInside, if_neg h.2]

theorem tagShapes_of {name : Text} (h : IsSilent name) :
    tagShapes (Tag.of name) loops inner = inner loops :=
  tagShapes_silent loops h

theorem tagShapes_instruction {name attr value : Text} (h : IsSilent name) :
    tagShapes (instruction name attr value) loops inner = inner loops :=
  tagShapes_silent loops h

theorem tagShapes_loop (attr select : Text) :
    tagShapes (instruction "xsl:for-each" attr select) loops inner = inner (loops + 1) := by
  have loop : wordName "xsl:for-each" = ⟨"xsl", "for-each"⟩ := by decide
  simp only [tagShapes, instruction, loop, loopsInside, if_true]

theorem tagShapes_element {t : Tag} {label : Text} (h : IsNCName (Markup.elementName label))
    (name : t.name = Markup.elementName label) :
    tagShapes t loops inner = [elementShape label loops (inner loops)] := by
  have literal : ([] : Text) ≠ "xsl".toList := by decide
  simp only [tagShapes, name, h.wordName, literal, if_false, elementShape]

end Tags

section Lines

variable (loops : Nat)

theorem linesShapes_append (ms ns : List Markup) :
    linesShapes loops (ms ++ ns) = linesShapes loops ms ++ linesShapes loops ns :=
  Trees.append rfl (fun _ _ => rfl) ms ns

theorem linesShapes_singleton (m : Markup) : linesShapes loops [m] = markupShapes loops m := by
  rw [linesShapes, linesShapes, List.append_nil]

theorem linesShapes_looped {path? : Option Text} {context : Context} {body : Context → List Markup}
    {shapes : Nat → List Shape} (h : ∀ c l, linesShapes l (body c) = shapes l) :
    linesShapes loops (looped path? context body) =
      shapes (if path?.isSome then loops + 1 else loops) := by
  cases path? with
  | none => exact h context loops
  | some path =>
    rw [looped, linesShapes_singleton, markupShapes, tagShapes_loop, h]
    rfl

theorem inlineShapes_valueOf (select : Text) : inlineShapes loops (valueOf select) = [] :=
  tagShapes_instruction loops (by decide)

theorem markupShapes_dateChoice (select : Text) : markupShapes loops (dateChoice select) = [] := by
  simp only [dateChoice, markupShapes, linesShapes, inlineShapes, inlineShapes_valueOf]
  rw [tagShapes_of loops (by decide), tagShapes_instruction loops (by decide),
    tagShapes_of loops (by decide)]
  rfl

end Lines

theorem isSome_loopPath? (m : Mapping) : (loopPath? m).isSome = m.repeats := by
  unfold loopPath?
  cases m.repeats <;> rfl

namespace XmlSheet

section Field

variable {label : Text} (h : IsNCName (Markup.elementName label)) (loops : Nat)

include h

theorem markupShapes_selectedValue {tag : Tag} (name : tag.name = Markup.elementName label)
    (m : Mapping) (select : Text) :
    markupShapes loops (selectedValue tag m select) = [elementShape label loops []] := by
  unfold selectedValue
  split
  · rw [markupShapes, inlineShapes, tagShapes_element loops h name, inlineShapes_valueOf]
  · rw [markupShapes, inlineShapes, tagShapes_element loops h name, inlineShapes_valueOf]
  · rw [markupShapes, tagShapes_element loops h name, linesShapes_singleton, markupShapes_dateChoice]
  · simp only [markupShapes, linesShapes, inlineShapes, List.append_nil]
    rw [tagShapes_of loops (by decide), tagShapes_instruction loops (by decide),
      tagShapes_of loops (by decide), tagShapes_of loops (by decide), List.append_nil,
      tagShapes_element loops h name, inlineShapes_valueOf]

theorem markupShapes_fieldBody (m : Mapping) (context : Context) :
    markupShapes loops (fieldBody label m context) = [elementShape label loops []] := by
  have tag (inner : Nat → List Shape) :
      tagShapes (fieldTag label m) loops inner = [elementShape label loops (inner loops)] :=
    tagShapes_element loops h rfl
  simp only [fieldBody]
  split
  · exact tag fun _ => []
  · split
    · exact tag fun _ => []
    · split
      · exact tag fun _ => []
      · exact tag fun _ => []
    · exact markupShapes_selectedValue h loops rfl m _

theorem linesShapes_field (context : Context) (row : Row) :
    linesShapes loops (field label context row.mapping) =
      [elementShape label (loopsFor (some row) loops) []] := by
  rw [field, linesShapes_looped loops fun c l => by
    rw [linesShapes_singleton, markupShapes_fieldBody h], isSome_loopPath?]
  rfl

theorem linesShapes_rows (context : Context) (rows : List Row) :
    linesShapes loops (rows.flatMap fun row => field label context row.mapping) =
      rows.map fun row => elementShape label (loopsFor (some row) loops) [] := by
  induction rows with
  | nil => rfl
  | cons row rows ih =>
    rw [List.flatMap_cons, linesShapes_append, linesShapes_field h, ih]
    rfl

theorem markupShapes_element {tag : Tag} (name : tag.name = Markup.elementName label) {empty : Bool}
    {body : List Markup} (none : empty = true → linesShapes loops body = []) :
    markupShapes loops (element tag empty body) =
      [elementShape label loops (linesShapes loops body)] := by
  cases empty with
  | true =>
    rw [none rfl, element, if_pos rfl, markupShapes, inlineShapes, tagShapes_element loops h name]
  | false =>
    rw [element, if_neg Bool.false_ne_true, markupShapes, tagShapes_element loops h name]

end Field

theorem linesShapes_nodes_of_isEmpty {ns : List Node} (empty : ns.isEmpty = true) (context : Context)
    (loops : Nat) : linesShapes loops (nodes ns context) = [] := by
  rw [List.isEmpty_iff.1 empty]
  rfl

mutual

/-- The lines of a node stand for the elements of the node, whatever loops are around them. -/
theorem linesShapes_node (n : Node) (context : Context) (loops : Nat)
    (h : n.Every NodeFit) :
    linesShapes loops (node n context) = nodeShapes loops n := by
  cases n with
  | component name level rows children =>
    obtain ⟨⟨named, -⟩, below⟩ := h
    have inner (c : Context) (l : Nat) :
        linesShapes l [element (componentTag name (Target.definition? rows)) children.isEmpty
          (nodes children c)] = [elementShape name l (treeShapes l children)] := by
      have lines := linesShapes_nodes children c l below
      rw [linesShapes_singleton, markupShapes_element named l rfl
        (linesShapes_nodes_of_isEmpty · c l), lines]
    have repeats : ((Target.definition? rows).bind fun row => loopPath? row.mapping).isSome =
        (Target.definition? rows).any (·.mapping.repeats) := by
      cases Target.definition? rows with
      | none => rfl
      | some row => exact isSome_loopPath? row.mapping
    rw [node, linesShapes_looped loops inner, repeats]
    rfl
  | leaf name level rows => exact linesShapes_rows h.1 loops context rows

theorem linesShapes_nodes (ns : List Node) (context : Context) (loops : Nat)
    (h : Every NodeFit ns) :
    linesShapes loops (nodes ns context) = treeShapes loops ns := by
  cases ns with
  | nil => rfl
  | cons n ns =>
    rw [nodes, linesShapes_append, linesShapes_node n context loops h.1,
      linesShapes_nodes ns context loops h.2, treeShapes]

end

theorem linesShapes_templateBody {root : Option RootElement}
    (named : ∀ r ∈ root, IsNCName (Markup.elementName r.name)) {tree : List Node}
    (h : Every NodeFit tree) :
    linesShapes 0 (templateBody root tree) = outputShapes root tree := by
  have lines := linesShapes_nodes tree none 0 h
  cases root with
  | none => exact lines
  | some r =>
    by_cases blank : Text.allBlank r.name = true
    · simp only [templateBody, outputShapes, blank, if_true, lines]
    · simp only [templateBody, outputShapes, blank, if_false, Bool.false_eq_true]
      rw [linesShapes_singleton, markupShapes_element (named r rfl) 0 rfl
        (linesShapes_nodes_of_isEmpty · none 0), lines]

section Template

variable (scope : Scope) (indent depth : Nat)

theorem template?_node_of_ne {t : Tag} (h : wordName t.name ≠ ⟨"xsl", "template"⟩) (pattern : Text)
    (children : List Xml.Node) : template? pattern (t.node scope children) = none := by
  rw [Tag.node, template?, if_neg fun both => h both.1]

theorem template?_templateTag (pattern : Text) (children : List Xml.Node) :
    template? pattern ((templateTag pattern).node scope children) = some children := by
  have name : wordName (templateTag pattern).name = ⟨"xsl", "template"⟩ := by
    show wordName "xsl:template" = ⟨"xsl", "template"⟩
    decide
  have attr : ⟨none, "match", pattern⟩ ∈ (templateTag pattern).attrs.map Markup.Attr.read := by
    simp [templateTag, instruction, Markup.Attr.read, Markup.Attr.of, Markup.resolve?_escapeAttr]
  rw [Tag.node, template?, if_pos ⟨name, attr⟩]

theorem filterMap_template?_globals (globals : List Variable) (pattern : Text) :
    (Markup.allNodes scope indent depth (globals.map variableLine)).filterMap (template? pattern) =
      [] := by
  induction globals with
  | nil => rfl
  | cons v globals ih =>
    have line (children : List Xml.Node) (attrs : List Markup.Attr) :
        template? pattern ((Tag.mk "xsl:variable" attrs).node scope children) = none :=
      template?_node_of_ne scope (show wordName "xsl:variable" ≠ _ by decide) pattern children
    rw [List.map_cons, Markup.allNodes, List.filterMap_append, ih, List.append_nil, variableLine]
    simp only [Markup.nodes, Markup.Inline.node, List.filterMap_cons, line, List.filterMap_nil]
    rfl

theorem templates_document {root : Xml.Node} {set : MappingSet} {tree : List Node}
    (h : IsStylesheet root (documentNodes scope indent (body set tree))) :
    templates "/" root = [Markup.allNodes scope indent 2 (templateBody set.rootElement tree) ++
      [.text (Markup.gap indent 1)]] := by
  obtain ⟨space, attrs, rfl⟩ := h
  have output : template? "/" (outputTag.node scope []) = none :=
    template?_node_of_ne scope (show wordName "xsl:output" ≠ _ by decide) _ _
  rw [templates, documentNodes, body, Markup.allNodes_append, List.filterMap_append,
    List.filterMap_append, Markup.allNodes, List.filterMap_append, filterMap_template?_globals]
  simp only [Markup.nodes, Markup.allNodes, Markup.Inline.node, List.filterMap_cons, output,
    template?_templateTag, List.filterMap_nil, List.append_nil]
  rfl

end Template

/-- Without instructions and text, the template of a stylesheet for XML output is the target tree, each
element inside as many loops as rows repeat on the way to it. -/
theorem template_has_tree_shape (set : MappingSet) (options : Options)
    (h : Writable set options) (fit : NamesFit set) :
    ∃ root content, Xml.parse? (generate .xml set options).stylesheet = some root ∧
      templates "/" root = [content] ∧
      eraseAll 0 content =
        outputShapes set.rootElement (Target.build (sheetRows set.fields)) := by
  obtain ⟨root, parsed, shape⟩ := parse?_text h fit
  refine ⟨root, _, parsed, templates_document _ _ shape, ?_⟩
  rw [eraseAll_append, eraseAll_allNodes, eraseAll_text, List.append_nil,
    linesShapes_templateBody fit.root (fit.tree h)]

theorem invoice_has_tree_shape : Writable invoiceSet invoiceOptions ∧ NamesFit invoiceSet ∧
    ∃ root content, Xml.parse? (generate .xml invoiceSet invoiceOptions).stylesheet = some root ∧
      templates "/" root = [content] ∧
      eraseAll 0 content = [elementShape "Report" 0 [elementShape "Invoice" 0
        [elementShape "Total--Due" 0 [], elementShape "Lines" 0 [elementShape "No" 1 []]]]] := by
  obtain ⟨root, content, parsed, only, shape⟩ :=
    template_has_tree_shape invoiceSet invoiceOptions invoice_writable invoice_namesFit
  have expected : outputShapes invoiceSet.rootElement (Target.build (sheetRows invoiceSet.fields)) =
      [elementShape "Report" 0 [elementShape "Invoice" 0
        [elementShape "Total--Due" 0 [], elementShape "Lines" 0 [elementShape "No" 1 []]]]] := by
    decide +kernel
  exact ⟨invoice_writable, invoice_namesFit, root, content, parsed, only, shape.trans expected⟩

end XmlSheet

end FieldMap.Stylesheet
