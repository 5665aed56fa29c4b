import FieldMap.Stylesheet.Sheet

/-!
The stylesheet for JSON output: one map, with an entry for each node of the target tree. A leaf
shows its first row only, since a key stands once in a map. Nodes that only fill a gap are named in
a comment; those with children keep their entry.
-/

namespace FieldMap.Stylesheet.JsonSheet

open Markup (Attr Tag Inline)
open Target (Node Row)

def defaultRoot : Text := "/*[1]"

def root (set : MappingSet) : Text :=
  set.root.getD defaultRoot

def keyAttr (name : Text) : Attr :=
  .of "key" (Markup.stringLiteral name)

def typedExpression (select : Text) : ValueFormat → Text
  | .dateWithFallback =>
    "if (" ++ select ++ ") then string(" ++ select ++ ") else " ++ currentDateTime
  | .twoDecimals _ => "if (" ++ select ++ ") then xs:decimal(" ++ twoDecimals select ++ ") else ()"
  | .raw => "string(" ++ select ++ ")"
  | .text => "if (" ++ select ++ ") then string(" ++ select ++ ") else ()"

def entryTag (name : Text) : Tag :=
  ⟨"xsl:map-entry", [keyAttr name]⟩

def selectEntry (name select : Text) : Inline :=
  .empty ⟨"xsl:map-entry", [keyAttr name, Attr.of "select" select]⟩

def entry (mode : JsonValues) (name : Text) (m : Mapping) (context : Context) : Inline :=
  match valueSource m context with
  | .literal text => selectEntry name (Markup.stringLiteral text)
  | .empty => selectEntry name "''"
  | .select expression =>
    match mode with
    | .direct => .around (entryTag name) (valueOf expression)
    | .typed => selectEntry name (typedExpression expression (.ofType m.fieldType))

def sequence (select : Text) : Inline :=
  .empty (instruction "xsl:sequence" "select" select)

def member (mode : JsonValues) (m : Mapping) (context : Context) : Inline :=
  match valueSource m context with
  | .literal text => sequence (Markup.stringLiteral text)
  | .empty => sequence "''"
  | .select expression =>
    match mode with
    | .direct => valueOf expression
    | .typed => sequence (typedExpression expression (.ofType m.fieldType))

def array (path : Text) (context : Context) (body : Context → List Markup) : Markup :=
  .block (Tag.of "xsl:array") (looped (some path) context body)

def optionalNote (m : Mapping) : List Markup :=
  if !m.required && !m.isPlaceholder then
    [.comment ("optional field '" ++ m.targetName ++ "'")]
  else []

def leaf (mode : JsonValues) (name : Text) (rows : List Row) (context : Context) : List Markup :=
  match rows with
  | [] => []
  | ⟨_, m⟩ :: _ =>
    if m.isPlaceholder then [.comment ("placeholder field '" ++ name ++ "'")]
    else
      optionalNote m ++
        match loopPath? m with
        | some path =>
          [.block (entryTag name) [array path context fun inner => [.line (member mode m inner)]]]
        | none => [.line (entry mode name m context)]

mutual

def node (mode : JsonValues) : Node → Context → List Markup
  | .component name _ rows children, context =>
    let definition := Target.definition? rows
    let gap := Target.isGap rows
    let gapNote :=
      if gap then [Markup.comment ("placeholder container '" ++ name ++ "'")] else []
    if gap && children.isEmpty then gapNote
    else
      let map := fun inner => [Markup.block (Tag.of "xsl:map") (nodes mode children inner)]
      let content :=
        match definition.bind fun row => loopPath? row.mapping with
        | some path => [array path context map]
        | none => map context
      gapNote ++ (definition.map fun row => optionalNote row.mapping).getD [] ++
        [.block (entryTag name) content]
  | .leaf name _ rows, context => leaf mode name rows context

def nodes (mode : JsonValues) : List Node → Context → List Markup
  | [], _ => []
  | n :: ns, context => node mode n context ++ nodes mode ns context

end

def outputTag : Tag :=
  ⟨"xsl:output", [Attr.of "method" "json", Attr.of "indent" "yes", Attr.of "encoding" "UTF-8"]⟩

def body (set : MappingSet) (mode : JsonValues) (tree : List Node) : List Markup :=
  [.line (.empty outputTag),
    .block (templateTag "/")
      [.block (Tag.of "xsl:map")
        [.block (instruction "xsl:for-each" "select" (root set))
          (nodes mode tree (some (root set)))]]]

/-- Typed values need the namespace of their types. -/
def header (options : Options) : Tag :=
  let own : List (Text × Text) :=
    match options.jsonValues with
    | .typed => [("xs", schemaUri)]
    | .direct => []
  headerTag "3.0" own options.namespaces

def text (set : MappingSet) (options : Options) (mappings : List Mapping) : Text :=
  sheetText options.indent (header options)
    (body set options.jsonValues (Target.build mappings))

def droppedDiagnostics (m : Mapping) : List Diagnostic :=
  if m.attributes.isEmpty then []
  else
    [.warning .unsupported
      (Text.ofNat m.attributes.length ++ " attribute(s) on '" ++ m.effectivePath ++
        "' have no JSON representation and were dropped")]

/-- What a leaf leaves out: all rows but the first, and the attributes of that one. -/
def leafDiagnostics (name : Text) (rows : List Row) : List Diagnostic :=
  match rows with
  | [] => []
  | ⟨_, m⟩ :: others =>
    (others.map fun row =>
      .warning .malformedInput
        ("'" ++ row.mapping.sourcePath ++ "' maps to key '" ++ name ++ "' already produced by '" ++
          m.sourcePath ++ "' and is not emitted")) ++
      if m.isPlaceholder then [] else droppedDiagnostics m

mutual

def nodeDiagnostics : Node → List Diagnostic
  | .component _ _ rows children =>
    if Target.isGap rows && children.isEmpty then []
    else
      ((Target.definition? rows).map fun row => droppedDiagnostics row.mapping).getD [] ++
        treeDiagnostics children
  | .leaf name _ rows => leafDiagnostics name rows

def treeDiagnostics : List Node → List Diagnostic
  | [] => []
  | n :: ns => nodeDiagnostics n ++ treeDiagnostics ns

end

def diagnostics (mappings : List Mapping) : List Diagnostic :=
  let tree := Target.build mappings
  shadowedDiagnostics tree ++ treeDiagnostics tree

end FieldMap.Stylesheet.JsonSheet
