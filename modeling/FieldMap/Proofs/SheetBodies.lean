import FieldMap.Proofs.SheetMarkup
import FieldMap.Stylesheet.FlatSheet
import FieldMap.Stylesheet.JsonSheet
import FieldMap.Stylesheet.XmlSheet

/-!
The bodies of the three kinds of stylesheets are plain markup. For XML output the names made from
segments and attributes must be names of elements and attributes, and the attributes of one element
distinct; for the other outputs the target paths must be fit for a comment.
-/

namespace FieldMap.Markup

theorem trim_eq_of_elementName {label w : Text} (plain : '_' ∉ w) (h : elementName label = w) :
    Text.trim label = w := by
  have same : (Text.trim label).map (fun c => if isNameChar c then c else '_') = w := by
    simp only [elementName] at h
    split at h
    · next c rest e =>
      split at h
      · exact h
      · subst h
        exact absurd List.mem_cons_self plain
    · subst h
      exact absurd List.mem_cons_self plain
  have each : ∀ c ∈ Text.trim label, (if isNameChar c then c else '_') = c := by
    intro c hc
    split
    · rfl
    · next other =>
      have mem := List.mem_map_of_mem (f := fun c => if isNameChar c then c else '_') hc
      simp only [same, other, Bool.false_eq_true, if_false] at mem
      exact absurd mem plain
  rw [← same, List.map_congr_left each, List.map_id']

end FieldMap.Markup

namespace FieldMap.Stylesheet

open Markup (Attr Tag Inline AllPlain allPlain_iff)
open Target (Node Row Every)
open Xml hiding Attr Node

structure AttributesFit (attributes : List Attribute) : Prop where
  names : ∀ a ∈ attributes, IsAttrName (Markup.elementName a.name)
  distinct : (attributes.map fun a => Markup.elementName a.name).Nodup

instance (attributes : List Attribute) : Decidable (AttributesFit attributes) :=
  decidable_of_iff ((∀ a ∈ attributes, IsAttrName (Markup.elementName a.name)) ∧
      (attributes.map fun a => Markup.elementName a.name).Nodup)
    ⟨fun h => ⟨h.1, h.2⟩, fun h => ⟨h.names, h.distinct⟩⟩

theorem attributesFit_nil : AttributesFit [] :=
  ⟨List.forall_mem_nil _, List.nodup_nil⟩

theorem xmlText_attributeTemplate {v : Attribute.Value} (h : XmlText v.content) :
    XmlText (attributeTemplate v) := by
  unfold attributeTemplate
  split
  · exact Markup.xmlText_doubleBraces h
  · exact (Markup.xmlText_elementName h).between
  · exact h.between

theorem plain_attributeMarkup {a : Attribute} (name : IsAttrName (Markup.elementName a.name))
    (h : ∀ t ∈ a.texts, XmlText t) : (attributeMarkup a).Plain :=
  name.plain (xmlText_attributeTemplate (h _ (by simp [Attribute.texts])))

theorem plain_attributes {attributes : List Attribute} (fit : AttributesFit attributes)
    (texts : ∀ a ∈ attributes, ∀ t ∈ a.texts, XmlText t) :
    ∀ a ∈ attributes.map attributeMarkup, a.Plain := by
  intro a ha
  obtain ⟨b, hb, rfl⟩ := List.mem_map.1 ha
  exact plain_attributeMarkup (fit.names b hb) (texts b hb)

theorem names_attributeMarkup (attributes : List Attribute) :
    (attributes.map attributeMarkup).map (·.name) =
      attributes.map fun a => Markup.elementName a.name :=
  List.map_map

theorem plain_unprefixed {scope : Scope} {name : Text} (h : IsNCName name)
    {attrs : List Attr} (plain : ∀ a ∈ attrs, a.Plain)
    (distinct : (attrs.map (·.name)).Nodup) : (Tag.mk name attrs).Plain scope where
  word := h.isWord
  space := by
    rw [h.wordName]
    rfl
  attrs := plain
  distinct := distinct

theorem plain_attributed {scope : Scope} {name : Text} (h : IsNCName name)
    {attributes : List Attribute} (fit : AttributesFit attributes)
    (texts : ∀ a ∈ attributes, ∀ t ∈ a.texts, XmlText t) :
    (Tag.mk name (attributes.map attributeMarkup)).Plain scope :=
  plain_unprefixed h (plain_attributes fit texts)
    (names_attributeMarkup attributes ▸ fit.distinct)

namespace XmlSheet

variable {scope : Scope}

structure RowFit (m : Mapping) : Prop where
  texts : m.XmlTexts
  attributes : AttributesFit m.attributes
  trimmed : ∀ a ∈ m.attributes, Text.trim a.name = a.name

def NodeFit (name : Text) (rows : List Row) : Prop :=
  IsNCName (Markup.elementName name) ∧ ∀ r ∈ rows, RowFit r.mapping

theorem plain_fieldTag {name : Text} (h : IsNCName (Markup.elementName name)) {m : Mapping}
    (fit : RowFit m) : (fieldTag name m).Plain scope := by
  -- The currency is added only where no attribute has its name.
  have currency : ∀ a ∈ [currencyAttr], a.Plain :=
    List.forall_mem_singleton.2 (IsAttrName.plain (by decide) (by decide))
  have fresh (unnamed : m.attributes.any (·.name = "currencyID".toList) = false) :
      "currencyID".toList ∉ m.attributes.map fun a => Markup.elementName a.name := by
    intro hmem
    obtain ⟨a, ha, e⟩ := List.mem_map.1 hmem
    -- Names are trimmed when they are read, so this one is the name itself and not only made into it.
    have same := Markup.trim_eq_of_elementName (by decide) e
    rw [fit.trimmed a ha] at same
    rw [List.any_eq_false] at unnamed
    exact unnamed a ha (by simp [same])
  have own := plain_attributes fit.attributes fit.texts.attributes
  have distinct := fit.attributes.distinct
  simp only [fieldTag]
  split
  · next cond =>
    rw [Bool.and_eq_true, Bool.not_eq_true'] at cond
    refine plain_unprefixed h (List.forall_mem_append.2 ⟨own, currency⟩) ?_
    rw [List.map_append, names_attributeMarkup, List.nodup_append]
    refine ⟨distinct, List.nodup_singleton _, ?_⟩
    intro a ha b hb e
    rw [List.map_singleton, List.mem_singleton] at hb
    have same : a = "currencyID".toList := e.trans hb
    exact fresh cond.2 (same ▸ ha)
  · rw [List.append_nil]
    exact plain_attributed h fit.attributes fit.texts.attributes

section Lines

variable (known : Knows scope)

include known

theorem plain_selectedValue {tag : Tag} (h : tag.Plain scope) {m : Mapping} (texts : m.XmlTexts)
    {select : Text} (text : XmlText select) : (selectedValue tag m select).Plain scope := by
  unfold selectedValue
  split
  · exact ⟨h, known.plain_valueOf text⟩
  · exact ⟨h, known.plain_valueOf (xmlText_twoDecimals text)⟩
  · exact ⟨h, known.plain_dateChoice text, trivial⟩
  · have note := Markup.xmlText_commentText (xmlText_missingNote texts)
    refine ⟨known.plain_of (by decide), ⟨?_, ?_⟩, ⟨?_, ?_⟩, trivial⟩
    · exact known.plain_instruction (by decide) (by decide) text
    · exact ⟨⟨h, known.plain_valueOf text⟩, trivial⟩
    · exact known.plain_of (by decide)
    · exact ⟨⟨known.plain_of (by decide), note⟩, trivial⟩

theorem plain_fieldBody {name : Text} (h : IsNCName (Markup.elementName name)) {m : Mapping}
    (fit : RowFit m) (context : Context) : (fieldBody name m context).Plain scope := by
  have tag : (fieldTag name m).Plain scope := plain_fieldTag h fit
  have value := xmlText_valueSource fit.texts context
  simp only [fieldBody]
  split
  · exact tag
  · split
    · exact tag
    · next text e =>
      rw [e] at value
      split
      · exact tag
      · exact ⟨tag, value⟩
    · next select e =>
      rw [e] at value
      exact plain_selectedValue known tag fit.texts value

theorem plain_field {name : Text} (h : IsNCName (Markup.elementName name)) {m : Mapping}
    (fit : RowFit m) (context : Context) : AllPlain scope (field name context m) :=
  known.plain_looped (xmlText_loopPath? fit.texts) context fun inner =>
    ⟨plain_fieldBody known h fit inner, trivial⟩

end Lines

theorem plain_element_lines {tag : Tag} (h : tag.Plain scope) (empty : Bool) {body : List Markup}
    (inner : AllPlain scope body) : (element tag empty body).Plain scope := by
  unfold element
  split
  · exact h
  · exact ⟨h, inner⟩

theorem plain_componentTag {name : Text} (h : IsNCName (Markup.elementName name))
    {definition : Option Row} (fit : ∀ row ∈ definition, RowFit row.mapping) :
    (componentTag name definition).Plain scope := by
  cases definition with
  | none => exact plain_unprefixed h (List.forall_mem_nil _) List.nodup_nil
  | some row =>
    have given := fit row rfl
    exact plain_attributed h given.attributes given.texts.attributes

mutual

theorem plain_node (known : Knows scope) (n : Node) (context : Context)
    (h : n.Every NodeFit) :
    AllPlain scope (node n context) := by
  cases n with
  | component name level rows children =>
    obtain ⟨⟨named, fit⟩, below⟩ := h
    have definition : ∀ row ∈ Target.definition? rows, RowFit row.mapping :=
      fun row hrow => fit row (Target.definition?_mem hrow)
    have loop : ∀ path ∈ (Target.definition? rows).bind fun row => loopPath? row.mapping,
        XmlText path := by
      intro path hpath
      obtain ⟨row, hrow, e⟩ := Option.bind_eq_some_iff.1 hpath
      exact xmlText_loopPath? (definition row hrow).texts path e
    rw [node]
    refine known.plain_looped loop context fun inner => ?_
    exact ⟨plain_element_lines (plain_componentTag named definition) _
      (plain_nodes known children inner below), trivial⟩
  | leaf name level rows =>
    rw [node, allPlain_iff]
    intro m hm
    obtain ⟨row, hrow, hm⟩ := List.mem_flatMap.1 hm
    exact allPlain_iff.1 (plain_field known h.1 (h.2 row hrow) context) m hm

theorem plain_nodes (known : Knows scope) (ns : List Node) (context : Context)
    (h : Every NodeFit ns) :
    AllPlain scope (nodes ns context) := by
  cases ns with
  | nil => trivial
  | cons n ns =>
    rw [nodes, Markup.allPlain_append]
    exact ⟨plain_node known n context h.1, plain_nodes known ns context h.2⟩

end

theorem plain_templateBody (known : Knows scope) {root : Option RootElement}
    (named : ∀ r ∈ root, IsNCName (Markup.elementName r.name))
    (fit : ∀ r ∈ root, AttributesFit r.attributes)
    (texts : ∀ r ∈ root, ∀ a ∈ r.attributes, ∀ t ∈ a.texts, XmlText t) {tree : List Node}
    (h : Every NodeFit tree) :
    AllPlain scope (templateBody root tree) := by
  have body := plain_nodes known tree none h
  simp only [templateBody]
  split
  · exact body
  · next r =>
    split
    · exact body
    · exact ⟨plain_element_lines (plain_attributed (named r rfl) (fit r rfl) (texts r rfl)) _ body,
        trivial⟩

theorem plain_variableLine (known : Knows scope) {v : Variable} (h : ∀ t ∈ v.texts, XmlText t) :
    (variableLine v).Plain scope := by
  have name := Markup.xmlText_elementName (h v.name (by simp [Variable.texts]))
  have value := h v.value.content (by simp [Variable.texts])
  refine known.plain_two (by decide) (by decide) (by decide) (by decide) name ?_
  split
  · next text e =>
    rw [e] at value
    exact Markup.xmlText_stringLiteral value
  · next expression e =>
    rw [e] at value
    exact value

end XmlSheet

namespace JsonSheet

variable {scope : Scope}

structure RowFit (m : Mapping) : Prop where
  texts : m.XmlTexts
  targets : m.Targets Markup.RowFree

structure NameFit (name : Text) : Prop where
  text : XmlText name
  rowFree : Markup.RowFree name

def NodeFit (name : Text) (rows : List Row) : Prop :=
  NameFit name ∧ ∀ r ∈ rows, RowFit r.mapping

theorem plain_note {label name : Text} (text : XmlText label) (rowFree : Markup.RowFree label)
    (last : label.getLast? ≠ some '-') (h : NameFit name) :
    (Markup.comment (label ++ name ++ "'")).Plain scope := by
  refine Markup.plain_comment ?_ ((text.append h.text).append (by decide))
  have front := rowFree.append h.rowFree (Or.inl last)
  exact front.append (by decide) (Or.inr (by decide))

theorem plain_optionalNote {m : Mapping} (fit : RowFit m) : AllPlain scope (optionalNote m) := by
  have name : NameFit m.targetName := ⟨fit.texts.targets.targetName, fit.targets.targetName⟩
  unfold optionalNote
  split
  · exact ⟨plain_note (by decide) (by decide) (by decide) name, trivial⟩
  · trivial

theorem xmlText_typedExpression {select : Text} (h : XmlText select) (format : ValueFormat) :
    XmlText (typedExpression select format) := by
  cases format with
  | dateWithFallback =>
    exact ((h.between.append h).append (by decide)).append xmlText_currentDateTime
  | twoDecimals currency => exact (h.between.append (xmlText_twoDecimals h)).append (by decide)
  | raw => exact h.between
  | text => exact (h.between.append h).append (by decide)

section Lines

variable (known : Knows scope)

include known

theorem plain_entryTag {name : Text} (h : XmlText name) : (entryTag name).Plain scope :=
  known.plain_instruction (by decide) (show IsAttrName "key" by decide)
    (Markup.xmlText_stringLiteral h)

theorem plain_selectEntry {name select : Text} (h : XmlText name) (text : XmlText select) :
    (selectEntry name select).Plain scope :=
  known.plain_two (by decide) (show IsAttrName "key" by decide) (show IsAttrName "select" by decide)
    (by decide) (Markup.xmlText_stringLiteral h) text

theorem plain_sequence {select : Text} (h : XmlText select) : (sequence select).Plain scope :=
  known.plain_instruction (by decide) (by decide) h

theorem plain_entry (mode : JsonValues) {name : Text} (h : XmlText name) {m : Mapping}
    (fit : RowFit m) (context : Context) : (entry mode name m context).Plain scope := by
  have value := xmlText_valueSource fit.texts context
  unfold entry
  split
  · next text e =>
    rw [e] at value
    exact plain_selectEntry known h (Markup.xmlText_stringLiteral value)
  · exact plain_selectEntry known h (by decide)
  · next expression e =>
    rw [e] at value
    split
    · exact ⟨plain_entryTag known h, known.plain_valueOf value⟩
    · exact plain_selectEntry known h (xmlText_typedExpression value _)

theorem plain_member (mode : JsonValues) {m : Mapping} (fit : RowFit m) (context : Context) :
    (member mode m context).Plain scope := by
  have value := xmlText_valueSource fit.texts context
  unfold member
  split
  · next text e =>
    rw [e] at value
    exact plain_sequence known (Markup.xmlText_stringLiteral value)
  · exact plain_sequence known (by decide)
  · next expression e =>
    rw [e] at value
    split
    · exact known.plain_valueOf value
    · exact plain_sequence known (xmlText_typedExpression value _)

theorem plain_array {path : Text} (h : XmlText path) (context : Context)
    {body : Context → List Markup} (inner : ∀ c, AllPlain scope (body c)) :
    (array path context body).Plain scope := by
  refine ⟨known.plain_of (by decide), known.plain_looped ?_ context inner⟩
  intro p hp
  cases hp
  exact h

theorem plain_leaf (mode : JsonValues) {name : Text} (h : NameFit name) {rows : List Row}
    (fit : ∀ r ∈ rows, RowFit r.mapping) (context : Context) :
    AllPlain scope (leaf mode name rows context) := by
  unfold leaf
  split
  · trivial
  · next index m others =>
    have row := fit ⟨index, m⟩ List.mem_cons_self
    split
    · exact ⟨plain_note (by decide) (by decide) (by decide) h, trivial⟩
    · rw [Markup.allPlain_append]
      refine ⟨plain_optionalNote row, ?_⟩
      split
      · next path loop =>
        refine ⟨⟨plain_entryTag known h.text, ?_, trivial⟩, trivial⟩
        refine plain_array known (xmlText_loopPath? row.texts path loop) context fun inner => ?_
        exact ⟨plain_member known mode row inner, trivial⟩
      · exact ⟨plain_entry known mode h.text row context, trivial⟩

end Lines

mutual

theorem plain_node (known : Knows scope) (mode : JsonValues) (n : Node) (context : Context)
    (h : n.Every NodeFit) :
    AllPlain scope (node mode n context) := by
  cases n with
  | component name level rows children =>
    obtain ⟨⟨named, fit⟩, below⟩ := h
    have gapNote : AllPlain scope (if Target.isGap rows then
        [Markup.comment ("placeholder container '" ++ name ++ "'")] else []) := by
      split
      · exact ⟨plain_note (by decide) (by decide) (by decide) named, trivial⟩
      · trivial
    have note : AllPlain scope
        (((Target.definition? rows).map fun row => optionalNote row.mapping).getD []) := by
      cases given : Target.definition? rows with
      | none => trivial
      | some row => exact plain_optionalNote (fit row (Target.definition?_mem given))
    have map (inner : Context) :
        AllPlain scope [Markup.block (Tag.of "xsl:map") (nodes mode children inner)] :=
      ⟨⟨known.plain_of (by decide), plain_nodes known mode children inner below⟩, trivial⟩
    simp only [node]
    split
    · exact gapNote
    · rw [Markup.allPlain_append, Markup.allPlain_append]
      refine ⟨⟨gapNote, note⟩, ⟨plain_entryTag known named.text, ?_⟩, trivial⟩
      split
      · next path loop =>
        obtain ⟨row, given, e⟩ := Option.bind_eq_some_iff.1 loop
        have text := xmlText_loopPath? (fit row (Target.definition?_mem given)).texts path e
        exact ⟨plain_array known text context map, trivial⟩
      · exact map context
  | leaf name level rows => exact plain_leaf known mode h.1 h.2 context

theorem plain_nodes (known : Knows scope) (mode : JsonValues) (ns : List Node) (context : Context)
    (h : Every NodeFit ns) :
    AllPlain scope (nodes mode ns context) := by
  cases ns with
  | nil => trivial
  | cons n ns =>
    rw [nodes, Markup.allPlain_append]
    exact ⟨plain_node known mode n context h.1, plain_nodes known mode ns context h.2⟩

end

end JsonSheet

namespace FlatSheet

variable {scope : Scope}

abbrev ColumnFit := JsonSheet.RowFit

theorem xmlText_columnNames {m : Mapping} (h : XmlText m.effectivePath) :
    ∀ name ∈ columnNames m, XmlText name := by
  have base : XmlText (m.effectivePath.map fun c => if c = '/' then '.' else c) := by
    intro c hc
    obtain ⟨d, hd, rfl⟩ := List.mem_map.1 hc
    split
    · decide
    · exact h d hd
  unfold columnNames
  split
  · exact List.forall_mem_singleton.2 base
  · intro name hname
    obtain ⟨i, _, rfl⟩ := List.mem_map.1 hname
    exact (base.append (by decide)).append (xmlText_ofNat _)

theorem xmlText_headerRow {columns : List Mapping} (h : ∀ m ∈ columns, XmlText m.effectivePath)
    {delimiter : Text} (text : XmlText delimiter) : XmlText (headerRow columns delimiter) := by
  refine (xmlText_intercalate text fun name hname => ?_).append (by decide)
  obtain ⟨m, hm, hname⟩ := List.mem_flatMap.1 hname
  exact xmlText_columnNames (h m hm) name hname

theorem hyphen_not_mem_ofNat (n : Nat) : '-' ∉ Text.ofNat n := by
  intro hmem
  have digit := Nat.isDigit_of_mem_toDigits (by decide) (by decide) hmem
  exact absurd digit (by decide)

theorem columnNote_eq (m : Mapping) :
    ∃ rest, columnNote m = m.effectivePath ++ ' ' :: rest ∧ XmlText rest ∧ '-' ∉ rest := by
  have presence : ∃ p : Text, (if m.required then "required" else "optional" : Text) = p ∧
      XmlText p ∧ '-' ∉ p := by
    split
    · exact ⟨"required", rfl, by decide, by decide⟩
    · exact ⟨"optional", rfl, by decide, by decide⟩
  obtain ⟨p, e, p_text, p_free⟩ := presence
  simp only [columnNote, e]
  split
  · refine ⟨'(' :: (p ++ [')']), by simp, ?_, by simpa using p_free⟩
    exact XmlText.cons (by decide) (p_text.append (by decide))
  · refine ⟨'(' :: (p ++ (", ".toList ++ (Text.ofNat m.occurrences ++ " occurrences)".toList))),
      by simp, ?_, ?_⟩
    · exact XmlText.cons (by decide)
        (p_text.append (.append (by decide) ((xmlText_ofNat _).append (by decide))))
    · simp [p_free, hyphen_not_mem_ofNat]

theorem plain_columnNote {m : Mapping} (text : XmlText m.effectivePath)
    (rowFree : Markup.RowFree m.effectivePath) : (Markup.comment (columnNote m)).Plain scope := by
  obtain ⟨rest, e, rest_text, free⟩ := columnNote_eq m
  rw [e]
  refine Markup.plain_comment ?_ (text.append (rest_text.cons (by decide)))
  refine rowFree.append (Markup.rowFree_of_not_mem ?_) (Or.inr (by simp))
  simpa using free

theorem xmlText_recordSelect {m : Mapping} (h : XmlText m.sourcePath) (context : Text)
    (position : Option Nat) : XmlText (recordSelect m context position) := by
  have path : XmlText ((Path.relativeTo m.sourcePath context).getD m.sourcePath) :=
    XmlText.getD (fun _ e => Path.xmlText_relativeTo h e) h
  unfold recordSelect
  cases position with
  | none => exact path
  | some i => exact Path.xmlText_withPosition path i

section Lines

variable (known : Knows scope)

include known

theorem plain_textLine {t : Text} (h : XmlText t) : (textLine t).Plain scope :=
  ⟨known.plain_of (by decide), h⟩

theorem plain_valueLines {m : Mapping} (h : m.XmlTexts) (context : Text) (position : Option Nat) :
    AllPlain scope (valueLines m context position) := by
  have select := xmlText_recordSelect h.sourcePath context position
  unfold valueLines
  split
  · trivial
  · have text := XmlText.getD h.hardcodedValue (show XmlText [] by decide)
    simp only
    split
    · trivial
    · exact ⟨plain_textLine known text, trivial⟩
  · simp only
    split
    · exact ⟨known.plain_dateChoice select, trivial⟩
    · exact ⟨known.plain_valueOf (xmlText_twoDecimals select), trivial⟩
    · exact ⟨known.plain_valueOf select, trivial⟩
    · exact ⟨known.plain_valueOf select, trivial⟩

theorem plain_cells {m : Mapping} (h : m.XmlTexts) (context : Text) :
    ∀ cell ∈ cells context m, AllPlain scope cell := by
  unfold cells
  split
  · exact List.forall_mem_singleton.2 (plain_valueLines known h context none)
  · intro cell hcell
    obtain ⟨i, _, rfl⟩ := List.mem_map.1 hcell
    exact plain_valueLines known h context _

theorem plain_endCells {separator : Markup} (h : separator.Plain scope) (last : Bool)
    {cells : List (List Markup)} (inner : ∀ cell ∈ cells, AllPlain scope cell) :
    AllPlain scope (endCells separator last cells) := by
  fun_induction endCells separator last cells with
  | case1 => trivial
  | case2 cell =>
    rw [Markup.allPlain_append]
    refine ⟨inner cell List.mem_cons_self, ?_, trivial⟩
    split
    · exact plain_textLine known (by decide)
    · exact h
  | case3 cell cells _ ih =>
    rw [Markup.allPlain_append, Markup.allPlain_append]
    refine ⟨⟨inner cell List.mem_cons_self, h, trivial⟩, ?_⟩
    exact ih fun c hc => inner c (List.mem_cons_of_mem _ hc)

theorem plain_rowLines {separator : Markup} (h : separator.Plain scope) (context : Text)
    {columns : List Mapping} (fit : ∀ m ∈ columns, ColumnFit m) :
    AllPlain scope (rowLines context separator columns) := by
  induction columns with
  | nil => trivial
  | cons m ms ih =>
    rw [List.forall_mem_cons] at fit
    have path := pathLike_xmlText.effectivePath fit.1.texts.targets
    have rowFree := pathLike_rowFree.effectivePath fit.1.targets
    rw [rowLines, Markup.allPlain_append]
    refine ⟨⟨plain_columnNote path rowFree, ?_⟩, ih fit.2⟩
    exact plain_endCells known h ms.isEmpty (plain_cells known fit.1.texts context)

end Lines

end FlatSheet

end FieldMap.Stylesheet
