import FieldMap.Stylesheet.Sheet

/-!
The stylesheet for XML output. Components become elements around their children, leaves become one
element for each of their rows, and rows that repeat stand inside a loop.
-/

namespace FieldMap.Stylesheet.XmlSheet

open Markup (Attr Tag Inline)
open Target (Node Row)

def currencyAttr : Attr := .of "currencyID" "USD"

/-- The tag of a field. Amounts of money say their currency unless the field does so itself. -/
def fieldTag (name : Text) (m : Mapping) : Tag :=
  let money := ValueFormat.ofType m.fieldType = .twoDecimals true
  let named := m.attributes.any (·.name = "currencyID".toList)
  ⟨Markup.elementName name,
    m.attributes.map attributeMarkup ++ if money && !named then [currencyAttr] else []⟩

def selectedValue (tag : Tag) (m : Mapping) (select : Text) : Markup :=
  match ValueFormat.ofType m.fieldType with
  | .raw => .line (.around tag (valueOf select))
  | .twoDecimals _ => .line (.around tag (valueOf (twoDecimals select)))
  | .dateWithFallback => .block tag [dateChoice select]
  | .text =>
    .block (Tag.of "xsl:choose")
      [.block (instruction "xsl:when" "test" select) [.line (.around tag (valueOf select))],
        .block (Tag.of "xsl:otherwise")
          [.line (.text (Tag.of "xsl:comment") (Markup.commentText (missingNote m)))]]

def fieldBody (name : Text) (m : Mapping) (context : Context) : Markup :=
  let tag := fieldTag name m
  if m.isComponent then .line (.empty tag)
  else
    match valueSource m context with
    | .empty => .line (.empty tag)
    | .literal text => if text = [] then .line (.empty tag) else .line (.text tag text)
    | .select expression => selectedValue tag m expression

def field (name : Text) (context : Context) (m : Mapping) : List Markup :=
  looped (loopPath? m) context fun inner => [fieldBody name m inner]

def componentTag (name : Text) (definition : Option Row) : Tag :=
  ⟨Markup.elementName name,
    match definition with
    | some row => row.mapping.attributes.map attributeMarkup
    | none => []⟩

/-- An element around lines, or an empty one if there are none. -/
def element (tag : Tag) (empty : Bool) (body : List Markup) : Markup :=
  if empty then .line (.empty tag) else .block tag body

mutual

def node : Node → Context → List Markup
  | .component name _ rows children, context =>
    let definition := Target.definition? rows
    looped (definition.bind fun row => loopPath? row.mapping) context fun inner =>
      [element (componentTag name definition) children.isEmpty (nodes children inner)]
  | .leaf name _ rows, context => rows.flatMap fun row => field name context row.mapping

def nodes : List Node → Context → List Markup
  | [], _ => []
  | n :: ns, context => node n context ++ nodes ns context

end

/-- The lines of the template: the tree, inside the root element if one is named. -/
def templateBody (root : Option RootElement) (tree : List Node) : List Markup :=
  let body := nodes tree none
  match root with
  | none => body
  | some r =>
    if Text.allBlank r.name then body
    else [element ⟨Markup.elementName r.name, r.attributes.map attributeMarkup⟩ tree.isEmpty body]

def variableLine (v : Variable) : Markup :=
  let select :=
    match v.value with
    | .literal text => Markup.stringLiteral text
    | .xpath expression => expression
  .line (.empty ⟨"xsl:variable",
    [Attr.of "name" (Markup.elementName v.name), Attr.of "select" select]⟩)

def outputTag : Tag :=
  ⟨"xsl:output", [Attr.of "method" "xml", Attr.of "indent" "yes", Attr.of "encoding" "UTF-8"]⟩

def body (set : MappingSet) (tree : List Node) : List Markup :=
  .line (.empty outputTag) :: set.globals.map variableLine ++
    [.block (templateTag "/") (templateBody set.rootElement tree)]

def header (set : MappingSet) (options : Options) : Tag :=
  headerTag (set.versionOr "1.0") [] options.namespaces

def text (set : MappingSet) (options : Options) (mappings : List Mapping) : Text :=
  sheetText options.indent (header set options) (body set (Target.build mappings))

def attributesByOwner (set : MappingSet) (mappings : List Mapping) : List (Text × Attribute) :=
  let root := set.rootElement.toList.flatMap fun r => r.attributes.map (r.name, ·)
  root ++ mappings.flatMap fun m => m.attributes.map (m.effectivePath, ·)

def undeclaredDiagnostics (set : MappingSet) (mappings : List Mapping) : List Diagnostic :=
  let declared := set.globals.map fun v => Markup.elementName v.name
  (attributesByOwner set mappings).filterMap fun (owner, a) =>
    match a.value with
    | .variable name =>
      if declared.contains (Markup.elementName name) then none
      else some (.warning .unknownVariable
        ("attribute '" ++ a.name ++ "' on '" ++ owner ++ "' references undeclared variable '$" ++
          name ++ "'"))
    | _ => none

def diagnostics (set : MappingSet) (mappings : List Mapping) : List Diagnostic :=
  shadowedDiagnostics (Target.build mappings) ++ undeclaredDiagnostics set mappings

end FieldMap.Stylesheet.XmlSheet
