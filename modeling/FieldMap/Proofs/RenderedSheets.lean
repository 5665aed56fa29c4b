import FieldMap.Proofs.FlatColumns
import FieldMap.Proofs.Renderer
import FieldMap.Proofs.ValueTemplates

/-!
The sheets of all formats, rendered call by call. Each procedure of a renderer writes the lines that
the sheet has at its place, in the context of the innermost loop, so a whole sheet is the layout of
calls that are in balance.
-/

namespace FieldMap.Stylesheet

open Markup (Attr Tag Inline IsTagName)
open Target (Node Row)

theorem isTagName_elementName (label : Text) : IsTagName (Markup.elementName label) := by
  refine List.all_eq_true.mpr fun c hc => ?_
  have legal := Markup.mem_elementName hc
  have space : c ≠ ' ' := by
    rintro rfl
    exact absurd legal (by decide)
  have close : c ≠ '>' := by
    rintro rfl
    exact absurd legal (by decide)
  simp [Markup.isTagChar, space, close]

namespace XmlSheet

def renderValue (tag : Tag) (m : Mapping) (select : Text) (r : Renderer) : Renderer :=
  match ValueFormat.ofType m.fieldType with
  | .raw => r.line (.around tag (valueOf select))
  | .twoDecimals _ => r.line (.around tag (valueOf (twoDecimals select)))
  | .dateWithFallback => r.openTag tag |>.dateChoice select |>.closeTag tag.name
  | .text =>
    r.openTag (Tag.of "xsl:choose")
      |>.openTag (instruction "xsl:when" "test" select)
      |>.line (.around tag (valueOf select))
      |>.closeTag "xsl:when"
      |>.openTag (Tag.of "xsl:otherwise")
      |>.line (.text (Tag.of "xsl:comment") (Markup.commentText (missingNote m)))
      |>.closeTag "xsl:otherwise"
      |>.closeTag "xsl:choose"

def renderElement (name : Text) (m : Mapping) (r : Renderer) : Renderer :=
  let tag := fieldTag name m
  if m.isComponent then r.line (.empty tag)
  else
    match valueSource m r.context with
    | .empty => r.line (.empty tag)
    | .literal text => if text = [] then r.line (.empty tag) else r.line (.text tag text)
    | .select expression => renderValue tag m expression r

def renderField (name : Text) (r : Renderer) (m : Mapping) : Renderer :=
  renderElement name m (r.enter (loopPath? m)) |>.leave (loopPath? m)

mutual

def renderNode : Node → Renderer → Renderer
  | .component name _ rows children, r =>
    let definition := Target.definition? rows
    let tag := componentTag name definition
    let path? := definition.bind fun row => loopPath? row.mapping
    let inner := r.enter path?
    let written :=
      if children.isEmpty then inner.line (.empty tag)
      else renderAll children (inner.openTag tag) |>.closeTag (Markup.elementName name)
    written.leave path?
  | .leaf name _ rows, r => rows.foldl (fun r row => renderField name r row.mapping) r

def renderAll : List Node → Renderer → Renderer
  | [], r => r
  | n :: ns, r => renderAll ns (renderNode n r)

end

theorem writes_renderValue {tag : Tag} (name : IsTagName tag.name) (m : Mapping) (select : Text)
    (r : Renderer) : Writes r [selectedValue tag m select] (renderValue tag m select r) := by
  rw [selectedValue, renderValue]
  have start := Writes.nothing r
  cases ValueFormat.ofType m.fieldType with
  | raw => exact start.line _
  | twoDecimals currency => exact start.line _
  | dateWithFallback => exact start.block ((Writes.nothing _).dateChoice select) name
  | text =>
    exact start.block
      (((Writes.nothing _).block ((Writes.nothing _).line _)).block ((Writes.nothing _).line _))

theorem writes_renderElement (name : Text) (m : Mapping) (r : Renderer) :
    Writes r [fieldBody name m r.context] (renderElement name m r) := by
  have start := Writes.nothing r
  rw [fieldBody, renderElement]
  split
  · exact start.line _
  · cases valueSource m r.context with
    | empty => exact start.line _
    | literal text =>
      dsimp only
      split
      · exact start.line _
      · exact start.line _
    | select expression => exact writes_renderValue (isTagName_elementName name) m expression r

theorem writes_renderField (name : Text) (r : Renderer) (m : Mapping) :
    Writes r (field name r.context m) (renderField name r m) :=
  Writes.looped (writes_renderElement name m _)

theorem writes_element {r r' : Renderer} {tag : Tag} {body : List Markup}
    (name : IsTagName tag.name) (empty : Bool) (inner : Writes (r.openTag tag) body r') :
    Writes r [element tag empty body]
      (if empty then r.line (.empty tag) else r'.closeTag tag.name) := by
  cases empty with
  | true => exact (Writes.nothing r).line _
  | false => exact (Writes.nothing r).block inner name

mutual

theorem writes_renderNode (n : Node) (r : Renderer) : Writes r (node n r.context) (renderNode n r) := by
  cases n with
  | component name path rows children =>
    rw [node, renderNode]
    -- The element stands inside the loop, so its children are written in the context of the loop.
    exact Writes.looped
      (writes_element (isTagName_elementName name) children.isEmpty (writes_renderAll children _))
  | leaf name path rows =>
    rw [node, renderNode]
    exact Writes.each (fun context (row : Row) => field name context row.mapping)
      (fun r row => writes_renderField name r row.mapping) rows r

theorem writes_renderAll (ns : List Node) (r : Renderer) :
    Writes r (nodes ns r.context) (renderAll ns r) := by
  cases ns with
  | nil =>
    rw [nodes, renderAll]
    exact Writes.nothing r
  | cons n ns =>
    have first := writes_renderNode n r
    have others := writes_renderAll ns (renderNode n r)
    rw [first.context] at others
    rw [nodes, renderAll]
    exact first.andThen others

end

end XmlSheet

namespace JsonSheet

def renderOptional (m : Mapping) (r : Renderer) : Renderer :=
  if !m.required && !m.isPlaceholder then r.note ("optional field '" ++ m.targetName ++ "'") else r

def renderLeaf (mode : JsonValues) (name : Text) (rows : List Row) (r : Renderer) : Renderer :=
  match rows with
  | [] => r
  | ⟨_, m⟩ :: _ =>
    if m.isPlaceholder then r.note ("placeholder field '" ++ name ++ "'")
    else
      let noted := renderOptional m r
      match loopPath? m with
      | some path =>
        let inner := noted.openTag (entryTag name) |>.openTag (Tag.of "xsl:array") |>.openLoop path
        inner.line (member mode m inner.context)
          |>.closeLoop |>.closeTag "xsl:array" |>.closeTag "xsl:map-entry"
      | none => noted.line (entry mode name m noted.context)

def renderGap (name : Text) (rows : List Row) (r : Renderer) : Renderer :=
  if Target.isGap rows then r.note ("placeholder container '" ++ name ++ "'") else r

def renderDefinition (definition : Option Row) (r : Renderer) : Renderer :=
  match definition with
  | some row => renderOptional row.mapping r
  | none => r

mutual

def renderNode (mode : JsonValues) : Node → Renderer → Renderer
  | .component name _ rows children, r =>
    let definition := Target.definition? rows
    let noted := renderGap name rows r
    if Target.isGap rows && children.isEmpty then noted
    else
      let inner := renderDefinition definition noted |>.openTag (entryTag name)
      let written :=
        match definition.bind fun row => loopPath? row.mapping with
        | some path =>
          renderAll mode children
              (inner.openTag (Tag.of "xsl:array") |>.openLoop path |>.openTag (Tag.of "xsl:map"))
            |>.closeTag "xsl:map" |>.closeLoop |>.closeTag "xsl:array"
        | none => renderAll mode children (inner.openTag (Tag.of "xsl:map")) |>.closeTag "xsl:map"
      written.closeTag "xsl:map-entry"
  | .leaf name _ rows, r => renderLeaf mode name rows r

def renderAll (mode : JsonValues) : List Node → Renderer → Renderer
  | [], r => r
  | n :: ns, r => renderAll mode ns (renderNode mode n r)

end

theorem writes_renderOptional {r r' : Renderer} {lines : List Markup} (h : Writes r lines r')
    (m : Mapping) : Writes r (lines ++ optionalNote m) (renderOptional m r') := by
  rw [optionalNote, renderOptional]
  split
  · exact h.note _
  · exact h.andThen (Writes.nothing r')

theorem writes_array {r r' : Renderer} {path : Text} {body : Context → List Markup}
    (inner : Writes (r.openTag (Tag.of "xsl:array") |>.openLoop path) (body (some path)) r') :
    Writes r [array path r.context body] (r'.closeLoop |>.closeTag "xsl:array") :=
  (Writes.nothing r).block (Writes.looped inner)

theorem writes_renderLeaf (mode : JsonValues) (name : Text) (rows : List Row) (r : Renderer) :
    Writes r (leaf mode name rows r.context) (renderLeaf mode name rows r) := by
  rw [leaf.eq_def, renderLeaf.eq_def]
  have start := Writes.nothing r
  cases rows with
  | nil => exact start
  | cons row others =>
    dsimp only
    split
    · exact start.note _
    · have noted := writes_renderOptional start row.mapping
      rw [← noted.context]
      cases loopPath? row.mapping with
      | none => exact noted.line _
      | some path =>
        exact noted.block (writes_array ((Writes.nothing _).line _))

theorem writes_renderGap (name : Text) (rows : List Row) (r : Renderer) :
    Writes r
      (if Target.isGap rows then [.comment ("placeholder container '" ++ name ++ "'")] else [])
      (renderGap name rows r) := by
  rw [renderGap]
  split
  · exact (Writes.nothing r).note _
  · exact Writes.nothing r

theorem writes_renderDefinition {r r' : Renderer} {lines : List Markup} (h : Writes r lines r')
    (definition : Option Row) :
    Writes r (lines ++ (definition.map fun row => optionalNote row.mapping).getD [])
      (renderDefinition definition r') := by
  cases definition with
  | none => exact h.andThen (Writes.nothing r')
  | some row => exact writes_renderOptional h row.mapping

mutual

theorem writes_renderNode (mode : JsonValues) (n : Node) (r : Renderer) :
    Writes r (node mode n r.context) (renderNode mode n r) := by
  cases n with
  | component name path rows children =>
    rw [node, renderNode]
    have noted := writes_renderGap name rows r
    dsimp only
    -- A gap without children ends with its comment; every other component goes on to an entry.
    split
    · exact noted
    · have begun := writes_renderDefinition noted (Target.definition? rows)
      rw [← begun.context]
      cases (Target.definition? rows).bind fun row => loopPath? row.mapping with
      | none => exact begun.block ((Writes.nothing _).block (writes_renderAll mode children _))
      | some path =>
        exact begun.block
          (writes_array ((Writes.nothing _).block (writes_renderAll mode children _)))
  | leaf name path rows =>
    rw [node, renderNode]
    exact writes_renderLeaf mode name rows r

theorem writes_renderAll (mode : JsonValues) (ns : List Node) (r : Renderer) :
    Writes r (nodes mode ns r.context) (renderAll mode ns r) := by
  cases ns with
  | nil =>
    rw [nodes, renderAll]
    exact Writes.nothing r
  | cons n ns =>
    have first := writes_renderNode mode n r
    have others := writes_renderAll mode ns (renderNode mode n r)
    rw [first.context] at others
    rw [nodes, renderAll]
    exact first.andThen others

end

end JsonSheet

namespace FlatSheet

def textElement (t : Text) : Inline :=
  .text (Tag.of "xsl:text") t

def renderValue (context : Text) (c : Column) (r : Renderer) : Renderer :=
  match c.mapping.valueType with
  | .empty => r
  | .hardcoded =>
    let text := c.mapping.hardcodedValue.getD []
    if text = [] then r else r.line (textElement text)
  | .xpath =>
    let select := recordSelect c.mapping context c.position
    match ValueFormat.ofType c.mapping.fieldType with
    | .dateWithFallback => r.dateChoice select
    | .twoDecimals _ => r.line (valueOf (twoDecimals select))
    | .raw | .text => r.line (valueOf select)

theorem writes_renderValue (context : Text) (c : Column) (r : Renderer) :
    Writes r (c.value context) (renderValue context c r) := by
  rw [Column.value, valueLines.eq_def, renderValue.eq_def]
  have start := Writes.nothing r
  cases c.mapping.valueType with
  | empty => exact start
  | hardcoded =>
    dsimp only
    split
    · exact start
    · exact start.line _
  | xpath =>
    dsimp only
    cases ValueFormat.ofType c.mapping.fieldType with
    | dateWithFallback => exact start.dateChoice _
    | twoDecimals currency => exact start.line _
    | raw => exact start.line _
    | text => exact start.line _

end FlatSheet

end FieldMap.Stylesheet
