import FieldMap.Proofs.DecodedAttributes
import FieldMap.Proofs.SheetBodies
import FieldMap.Proofs.SheetDocument
import FieldMap.Generation
import FieldMap.Validation

/-!
Generated stylesheets are valid. For a mapping set read from JSON whose texts may stand in a document,
and for namespaces that can be declared, the stylesheet of every format is an XML document with the
right outermost element, and for JSON output with one outermost map. XML output asks that the names
made from segments and attributes are names, the other outputs that comments can hold the targets.
-/

namespace FieldMap

open Xml hiding Attr Node

def RootElement.texts (r : RootElement) : List Text :=
  r.name :: r.attributes.flatMap Attribute.texts

def MappingSet.texts (set : MappingSet) : List Text :=
  set.fields.flatMap Mapping.texts ++ set.rootPath.toList ++ set.recordPath.toList ++
    set.rootElement.toList.flatMap RootElement.texts ++ set.globals.flatMap Variable.texts ++
    set.xsltVersion.toList

def Options.texts (options : Options) : List Text :=
  options.delimiter :: options.namespaces.entries.flatMap fun e => [e.1, e.2]

namespace Stylesheet

/-- What every stylesheet asks of its input: it is read from JSON, its texts may stand in a document,
and its namespaces can be declared. -/
structure Writable (set : MappingSet) (options : Options) : Prop where
  decoded : ∃ origin json, MappingSet.decode origin json = .ok set
  texts : ∀ t ∈ set.texts ++ options.texts, XmlText t
  namespaces : ∀ e ∈ options.namespaces.entries, IsBinding e.1 e.2

/-- The names that XML output is made of are names of elements and attributes. -/
structure NamesFit (set : MappingSet) : Prop where
  segments : ∀ m ∈ set.fields, ∀ name ∈ m.segments, IsNCName (Markup.elementName name)
  attributes : ∀ m ∈ set.fields, AttributesFit m.attributes
  root : ∀ r ∈ set.rootElement, IsNCName (Markup.elementName r.name)
  rootAttributes : ∀ r ∈ set.rootElement, AttributesFit r.attributes

/-- No target name and no target path has three hyphens in a row. -/
def CommentsFit (set : MappingSet) : Prop :=
  ∀ m ∈ set.fields, m.Targets Markup.RowFree

/-- What a format asks of the mapping set beyond that. -/
def FormatFit (set : MappingSet) : OutputFormat → Prop
  | .xml => NamesFit set
  | .json | .flat => CommentsFit set

namespace Writable

variable {set : MappingSet} {options : Options} (h : Writable set options)

include h

theorem field : ∀ m ∈ set.fields, m.XmlTexts := by
  intro m hm
  refine Mapping.xmlTexts_of_texts fun t ht => h.texts t ?_
  simp only [MappingSet.texts, List.mem_append, List.mem_flatMap]
  exact Or.inl (Or.inl (Or.inl (Or.inl (Or.inl (Or.inl ⟨m, hm, ht⟩)))))

theorem rows : ∀ m ∈ sheetRows set.fields, m.XmlTexts :=
  xmlTexts_sheetRows h.field

theorem root : ∀ path ∈ set.root, XmlText path := by
  intro path hpath
  obtain ⟨given, hgiven, e⟩ := Option.bind_eq_some_iff.1 hpath
  refine XmlText.nonBlank? (h.texts given ?_) e
  simp [MappingSet.texts, hgiven]

theorem record : ∀ path ∈ set.record, XmlText path := by
  intro path hpath
  obtain ⟨given, hgiven, e⟩ := Option.bind_eq_some_iff.1 hpath
  refine XmlText.nonBlank? (h.texts given ?_) e
  simp [MappingSet.texts, hgiven]

theorem versionOr {default : Text} (text : XmlText default) : XmlText (set.versionOr default) := by
  refine XmlText.getD (fun version hversion => ?_) text
  obtain ⟨given, hgiven, e⟩ := Option.bind_eq_some_iff.1 hversion
  refine XmlText.nonBlank? (h.texts given ?_) e
  simp [MappingSet.texts, hgiven]

theorem rootElement : ∀ r ∈ set.rootElement, ∀ a ∈ r.attributes, ∀ t ∈ a.texts, XmlText t := by
  intro r hr a ha t ht
  have inside : t ∈ r.texts := List.mem_cons_of_mem _ (List.mem_flatMap_of_mem ha ht)
  refine h.texts t ?_
  simp only [MappingSet.texts, List.mem_append, List.mem_flatMap, Option.mem_toList]
  exact Or.inl (Or.inl (Or.inl (Or.inr ⟨r, hr, inside⟩)))

theorem globals : ∀ v ∈ set.globals, ∀ t ∈ v.texts, XmlText t := by
  intro v hv t ht
  refine h.texts t ?_
  simp only [MappingSet.texts, List.mem_append, List.mem_flatMap]
  exact Or.inl (Or.inl (Or.inr ⟨v, hv, ht⟩))

theorem delimiter : XmlText options.delimiter :=
  h.texts _ (List.mem_append_right _ List.mem_cons_self)

theorem uris : ∀ e ∈ options.namespaces.entries, XmlText e.2 := by
  intro e he
  refine h.texts _ (List.mem_append_right _ (List.mem_cons_of_mem _ ?_))
  exact List.mem_flatMap_of_mem he (by simp)

end Writable

theorem knows_headerScope (own : List (Text × Text)) (table : Namespaces) :
    Knows (headerScope own table) := rfl

section Bodies

open Markup (AllPlain)
open Target (Every)

variable {set : MappingSet} {options : Options} {scope : Scope} (known : Knows scope)

include known

theorem XmlSheet.plain_outputTag : XmlSheet.outputTag.Plain scope :=
  known.plain_pairs (show IsInstruction "xsl:output" by decide)
    (show ∀ p ∈ [("method".toList, "xml".toList), ("indent".toList, "yes".toList),
      ("encoding".toList, "UTF-8".toList)], IsAttrName p.1 ∧ XmlText p.2 by decide) (by decide)

omit known in
theorem NamesFit.tree (h : Writable set options) (fit : NamesFit set) :
    Every XmlSheet.NodeFit (Target.build (sheetRows set.fields)) := by
  obtain ⟨origin, json, decoded⟩ := h.decoded
  have names : ∀ m ∈ sheetRows set.fields, ∀ name ∈ m.segments,
      IsNCName (Markup.elementName name) := by
    intro m hm name hname
    obtain ⟨f, hf, found⟩ := exists_of_mem_segments hm hname
    exact fit.segments f hf name found
  have row : ∀ m ∈ sheetRows set.fields, XmlSheet.RowFit m := by
    intro m hm
    rcases attributes_of_mem_sheetRows hm with none | ⟨f, hf, same⟩
    · exact ⟨h.rows m hm, none ▸ attributesFit_nil, none ▸ List.forall_mem_nil _⟩
    · have trimmed := MappingSet.trimmed_of_decode decoded f hf
      exact ⟨h.rows m hm, same ▸ fit.attributes f hf, same ▸ trimmed⟩
  exact Target.every_build names row

theorem XmlSheet.plain_body (h : Writable set options) (fit : NamesFit set) :
    AllPlain scope (XmlSheet.body set (Target.build (sheetRows set.fields))) := by
  have global : AllPlain scope (set.globals.map XmlSheet.variableLine) := by
    rw [Markup.allPlain_iff]
    intro m hm
    obtain ⟨v, hv, rfl⟩ := List.mem_map.1 hm
    exact XmlSheet.plain_variableLine known (h.globals v hv)
  have template := XmlSheet.plain_templateBody known fit.root fit.rootAttributes h.rootElement
    (fit.tree h)
  rw [XmlSheet.body, Markup.allPlain_append]
  refine ⟨⟨XmlSheet.plain_outputTag known, global⟩, ⟨?_, template⟩, trivial⟩
  exact known.plain_instruction (by decide) (by decide) (by decide)

omit known in
theorem CommentsFit.rows (h : Writable set options) (fit : CommentsFit set) :
    ∀ m ∈ sheetRows set.fields, JsonSheet.RowFit m :=
  fun m hm => ⟨h.rows m hm, pathLike_rowFree.sheetRows fit m hm⟩

theorem JsonSheet.plain_outputTag : JsonSheet.outputTag.Plain scope :=
  known.plain_pairs (show IsInstruction "xsl:output" by decide)
    (show ∀ p ∈ [("method".toList, "json".toList), ("indent".toList, "yes".toList),
      ("encoding".toList, "UTF-8".toList)], IsAttrName p.1 ∧ XmlText p.2 by decide) (by decide)

theorem JsonSheet.plain_body (h : Writable set options) (fit : CommentsFit set) (mode : JsonValues) :
    AllPlain scope (JsonSheet.body set mode (Target.build (sheetRows set.fields))) := by
  have row := fit.rows h
  have names : ∀ m ∈ sheetRows set.fields, ∀ name ∈ m.segments, JsonSheet.NameFit name :=
    fun m hm name hname => ⟨pathLike_xmlText.segments (row m hm).texts.targets name hname,
      pathLike_rowFree.segments (row m hm).targets name hname⟩
  have lines := JsonSheet.plain_nodes known mode _ (some (JsonSheet.root set))
    (Target.every_build names row)
  have root : XmlText (JsonSheet.root set) := XmlText.getD h.root (by decide)
  refine ⟨JsonSheet.plain_outputTag known, ⟨?_, ⟨?_, ⟨?_, lines⟩, trivial⟩, trivial⟩, trivial⟩
  · exact known.plain_instruction (by decide) (by decide) (by decide)
  · exact known.plain_of (by decide)
  · exact known.plain_instruction (by decide) (by decide) root

theorem FlatSheet.plain_outputTag : FlatSheet.outputTag.Plain scope :=
  known.plain_pairs (show IsInstruction "xsl:output" by decide)
    (show ∀ p ∈ [("method".toList, "text".toList), ("encoding".toList, "UTF-8".toList)],
      IsAttrName p.1 ∧ XmlText p.2 by decide) (by decide)

theorem FlatSheet.plain_body (h : Writable set options) (fit : CommentsFit set) :
    AllPlain scope (FlatSheet.body set options.delimiter
      (FlatSheet.columns (sheetRows set.fields))) := by
  have column : ∀ m ∈ FlatSheet.columns (sheetRows set.fields), FlatSheet.ColumnFit m :=
    fun m hm => fit.rows h m (List.mem_of_mem_filter hm)
  have path : ∀ m ∈ FlatSheet.columns (sheetRows set.fields), XmlText m.effectivePath :=
    fun m hm => pathLike_xmlText.effectivePath (column m hm).texts.targets
  have root : XmlText (FlatSheet.root set) := by
    unfold FlatSheet.root
    split
    · next path given => exact Path.xmlText_normalize (h.root path given)
    · decide
  have record : XmlText (FlatSheet.record set) := XmlText.getD h.record (by decide)
  refine ⟨FlatSheet.plain_outputTag known, ⟨?_, ?_, ?_, trivial⟩, ⟨?_, ?_⟩, ?_, trivial⟩
  · exact known.plain_instruction (by decide) (by decide) (by decide)
  · exact FlatSheet.plain_textLine known (FlatSheet.xmlText_headerRow path h.delimiter)
  · exact known.plain_instruction (by decide) (by decide) root
  · exact known.plain_instruction (by decide) (by decide) record
  · exact FlatSheet.plain_rowLines known (FlatSheet.plain_textLine known h.delimiter) _ column
  · exact known.plain_instruction (by decide) (by decide) (by decide)

end Bodies

def IsStylesheet (root : Xml.Node) (children : List Xml.Node) : Prop :=
  ∃ space attrs, root = .element ⟨"xsl", "stylesheet"⟩ space attrs children

def documentNodes (scope : Scope) (indent : Nat) (body : List Markup) : List Xml.Node :=
  Markup.allNodes scope indent 1 body ++ [.text (Markup.gap indent 0)]

section Documents

variable {set : MappingSet} {options : Options} (h : Writable set options)

include h

theorem Writable.parse? {own : List (Text × Text)} (hown : Declarable own)
    (own_text : ∀ e ∈ own, XmlText e.2) {version : Text} (version_text : XmlText version)
    {body : List Markup} (plain : Markup.AllPlain (headerScope own options.namespaces) body) :
    ∃ root, Xml.parse? (sheetText options.indent (headerTag version own options.namespaces) body) =
      some root ∧ IsStylesheet root
        (documentNodes (headerScope own options.namespaces) options.indent body) := by
  obtain ⟨space, attrs, parsed⟩ :=
    parse?_sheetText hown own_text h.namespaces h.uris version_text plain options.indent
  exact ⟨_, parsed, space, attrs, rfl⟩

theorem XmlSheet.parse?_text (fit : NamesFit set) :
    ∃ root, Xml.parse? (XmlSheet.text set options (sheetRows set.fields)) = some root ∧
      IsStylesheet root (documentNodes (headerScope [] options.namespaces) options.indent
        (XmlSheet.body set (Target.build (sheetRows set.fields)))) :=
  h.parse? declarable_nil (List.forall_mem_nil _) (h.versionOr (by decide))
    (XmlSheet.plain_body (knows_headerScope _ _) h fit)

theorem JsonSheet.parse?_text (fit : CommentsFit set) :
    ∃ root own, Xml.parse? (JsonSheet.text set options (sheetRows set.fields)) = some root ∧
      IsStylesheet root (documentNodes (headerScope own options.namespaces) options.indent
        (JsonSheet.body set options.jsonValues (Target.build (sheetRows set.fields)))) := by
  unfold JsonSheet.text JsonSheet.header
  cases options.jsonValues with
  | direct =>
    obtain ⟨root, parsed⟩ := h.parse? declarable_nil (List.forall_mem_nil _)
      (show XmlText "3.0" by decide) (JsonSheet.plain_body (knows_headerScope _ _) h fit .direct)
    exact ⟨root, [], parsed⟩
  | typed =>
    obtain ⟨root, parsed⟩ := h.parse? declarable_schema (List.forall_mem_singleton.2 (by decide))
      (show XmlText "3.0" by decide) (JsonSheet.plain_body (knows_headerScope _ _) h fit .typed)
    exact ⟨root, _, parsed⟩

theorem FlatSheet.parse?_text (fit : CommentsFit set) :
    ∃ root, Xml.parse? (FlatSheet.text set options (sheetRows set.fields)) = some root ∧
      IsStylesheet root (documentNodes (headerScope [] options.namespaces) options.indent
        (FlatSheet.body set options.delimiter (FlatSheet.columns (sheetRows set.fields)))) :=
  h.parse? declarable_nil (List.forall_mem_nil _) (h.versionOr (by decide))
    (FlatSheet.plain_body (knows_headerScope _ _) h fit)

end Documents

section Maps

open Validation (outerMaps outerMapsIn isMap)

variable {scope : Scope}

theorem outerMaps_node {t : Markup.Tag} (h : (wordName t.name).base ≠ "map".toList)
    (children : List Xml.Node) : outerMaps (t.node scope children) = outerMapsIn children := by
  rw [Markup.Tag.node, outerMaps, if_neg]
  simp only [isMap, h, decide_false, Bool.false_and, Bool.false_eq_true, not_false_eq_true]

theorem Knows.outerMaps_map (known : Knows scope) (children : List Xml.Node) :
    outerMaps ((Markup.Tag.of "xsl:map").node scope children) = 1 := by
  have name : wordName (Markup.Tag.of "xsl:map").name = ⟨"xsl", "map"⟩ := by decide
  have space : elementSpace? scope "xsl" = some (some xslUri) := by
    rw [elementSpace?, if_neg (by decide), if_neg (by decide), known]
    rfl
  rw [Markup.Tag.node, outerMaps, name, if_pos]
  simp only [isMap, space]
  decide

theorem Knows.outerMaps_body (known : Knows scope) (set : MappingSet) (mode : JsonValues)
    (tree : List Target.Node) (indent : Nat) :
    outerMapsIn (documentNodes scope indent (JsonSheet.body set mode tree)) = 1 := by
  simp only [documentNodes, JsonSheet.body, Markup.allNodes, Markup.nodes, Markup.Inline.node,
    List.append_nil, List.cons_append, List.nil_append, outerMapsIn]
  rw [outerMaps_node (by decide), outerMaps_node (by decide)]
  simp only [outerMapsIn, outerMaps, known.outerMaps_map]

end Maps

theorem IsStylesheet.baseName {root : Xml.Node} {children : List Xml.Node}
    (h : IsStylesheet root children) : Validation.baseName root = "stylesheet".toList := by
  obtain ⟨space, attrs, rfl⟩ := h
  rfl

theorem IsStylesheet.outerMaps {root : Xml.Node} {children : List Xml.Node}
    (h : IsStylesheet root children) :
    Validation.outerMaps root = Validation.outerMapsIn children := by
  obtain ⟨space, attrs, rfl⟩ := h
  rw [Validation.outerMaps, if_neg (by simp [Validation.isMap])]

end Stylesheet

open Stylesheet

/-- The rules that a valid stylesheet keeps, in words of its document. -/
theorem fault?_eq_none {format : OutputFormat} {text : Text} {root : Xml.Node}
    (parsed : Xml.parse? text = some root) (name : Validation.baseName root = "stylesheet".toList)
    (maps : format = .json → Validation.outerMaps root = 1) :
    Validation.fault? (some format) text = none := by
  have counted : ¬ (some format = some .json ∧ Validation.outerMaps root ≠ 1) := by
    rintro ⟨same, other⟩
    exact other (maps (Option.some.inj same))
  simp only [Validation.fault?, parsed]
  rw [if_neg (not_not.2 name), if_neg counted]

/-- The stylesheet of every format is a document that passes the check of that format. -/
theorem generate_passes_validation (format : OutputFormat) (set : MappingSet) (options : Options)
    (h : Writable set options) (fit : FormatFit set format) :
    Validation.fault? (some format) (generate format set options).stylesheet = none ∧
      ∃ root, Xml.parse? (generate format set options).stylesheet = some root ∧
        Validation.baseName root = "stylesheet".toList ∧
        (format = .json → Validation.outerMaps root = 1) := by
  have document : ∃ root, Xml.parse? (generate format set options).stylesheet = some root ∧
      Validation.baseName root = "stylesheet".toList ∧
      (format = .json → Validation.outerMaps root = 1) := by
    cases format with
    | xml =>
      obtain ⟨root, parsed, shape⟩ := XmlSheet.parse?_text h fit
      exact ⟨root, parsed, shape.baseName, fun other => nomatch other⟩
    | json =>
      obtain ⟨root, own, parsed, shape⟩ := JsonSheet.parse?_text h fit
      refine ⟨root, parsed, shape.baseName, fun _ => ?_⟩
      rw [shape.outerMaps]
      exact (knows_headerScope own options.namespaces).outerMaps_body _ _ _ _
    | flat =>
      obtain ⟨root, parsed, shape⟩ := FlatSheet.parse?_text h fit
      exact ⟨root, parsed, shape.baseName, fun other => nomatch other⟩
  obtain ⟨root, parsed, name, maps⟩ := document
  exact ⟨fault?_eq_none parsed name maps, root, parsed, name, maps⟩

/-- An invoice as JSON, with texts that need escaping and a name that is no name as it stands. -/
def invoiceJson : Json :=
  .obj [("fields".toList, .arr [
      .obj [("sourcePath".toList, .str "Invoice.Total"), ("targetName".toList, .str "Total"),
        ("targetPath".toList, .str "Invoice/Total--Due"), ("fieldType".toList, .str "currency"),
        ("attributes".toList, .arr [.obj [("name".toList, .str " unit & co "),
          ("value".toList, .str "<\"each\">"), ("isHardcoded".toList, .bool true)]])],
      .obj [("sourcePath".toList, .str "//Line/@no"), ("targetName".toList, .str "No"),
        ("targetPath".toList, .str "Invoice/Lines/No"), ("occurs".toList, .int 3),
        ("required".toList, .bool false)]]),
    ("rootElement".toList, .obj [("name".toList, .str "Report")]),
    ("variables".toList, .arr [.obj [("name".toList, .str "note"),
      ("value".toList, .str "it's \"new\"")]])]

def invoiceSet : MappingSet where
  fields := [
    { sourcePath := "Invoice.Total", targetName := "Total",
      targetPath := some "Invoice/Total--Due".toList, fieldType := .currency,
      attributes := [⟨"unit & co", .hardcoded "<\"each\">"⟩] },
    { sourcePath := "//Line/@no", targetName := "No", targetPath := some "Invoice/Lines/No".toList,
      occurs := 3, required := false }]
  rootElement := some ⟨"Report", []⟩
  globals := [⟨"note", .literal "it's \"new\""⟩]

def invoiceOptions : Options where
  namespaces := .ofList [("default", "urn:invoice"), ("x", "urn:a?b=1&c=2")]

theorem invoice_writable : Writable invoiceSet invoiceOptions :=
  ⟨⟨.value, invoiceJson, rfl⟩, by decide +kernel, by decide +kernel⟩

theorem invoice_namesFit : NamesFit invoiceSet :=
  ⟨by decide +kernel, by decide +kernel, by decide +kernel, by decide +kernel⟩

theorem invoice_passes_validation : Writable invoiceSet invoiceOptions ∧
    ∀ format, FormatFit invoiceSet format ∧
      Validation.fault? (some format) (generate format invoiceSet invoiceOptions).stylesheet = none := by
  have comments : CommentsFit invoiceSet := by
    unfold CommentsFit
    decide +kernel
  have fit : ∀ format, FormatFit invoiceSet format := by
    intro format
    cases format with
    | xml => exact invoice_namesFit
    | json => exact comments
    | flat => exact comments
  exact ⟨invoice_writable, fun format =>
    ⟨fit format, (generate_passes_validation format _ _ invoice_writable (fit format)).1⟩⟩

end FieldMap
