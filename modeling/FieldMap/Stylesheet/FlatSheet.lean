import FieldMap.Path.Normal
import FieldMap.Path.Position
import FieldMap.Stylesheet.Sheet

/-!
The stylesheet for flat text: a header row, then one row for each record. A field that occurs
several times has as many columns, each reading its own position.
-/

namespace FieldMap.Stylesheet.FlatSheet

open Markup (Attr Tag Inline)

/-- The mappings with columns: those given, apart from containers. -/
def columns (mappings : List Mapping) : List Mapping :=
  mappings.filter fun m => !m.isPlaceholder && !m.isComponent

def root (set : MappingSet) : Text :=
  match set.root with
  | some path => (Path.normalize path).path
  | none => "/*"

def anyRecord : Text := "*"

def record (set : MappingSet) : Text :=
  set.record.getD anyRecord

def context (set : MappingSet) : Text :=
  if record set = anyRecord then root set else record set

/-- The names of a mapping's columns: the target path with dots, numbered if there are several. -/
def columnNames (m : Mapping) : List Text :=
  let base := m.effectivePath.map fun c => if c = '/' then '.' else c
  if m.occurrences = 1 then [base]
  else (List.range m.occurrences).map fun i => base ++ "_" ++ Text.ofNat (i + 1)

def headerRow (columns : List Mapping) (delimiter : Text) : Text :=
  List.intercalate delimiter (columns.flatMap columnNames) ++ "\n"

def columnNote (m : Mapping) : Text :=
  let presence : Text := if m.required then "required" else "optional"
  if m.occurrences = 1 then m.effectivePath ++ " (" ++ presence ++ ")"
  else
    m.effectivePath ++ " (" ++ presence ++ ", " ++ Text.ofNat m.occurrences ++ " occurrences)"

def recordSelect (m : Mapping) (context : Text) (position : Option Nat) : Text :=
  let path := (Path.relativeTo m.sourcePath context).getD m.sourcePath
  match position with
  | some i => Path.withPosition path i
  | none => path

def textLine (t : Text) : Markup :=
  .line (.text (Tag.of "xsl:text") t)

def valueLines (m : Mapping) (context : Text) (position : Option Nat) : List Markup :=
  match m.valueType with
  | .empty => []
  | .hardcoded =>
    let text := m.hardcodedValue.getD []
    if text = [] then [] else [textLine text]
  | .xpath =>
    let select := recordSelect m context position
    match ValueFormat.ofType m.fieldType with
    | .dateWithFallback => [dateChoice select]
    | .twoDecimals _ => [.line (valueOf (twoDecimals select))]
    | .raw | .text => [.line (valueOf select)]

def cells (context : Text) (m : Mapping) : List (List Markup) :=
  if m.occurrences = 1 then [valueLines m context none]
  else (List.range m.occurrences).map fun i => valueLines m context (some (i + 1))

/-- Ends each cell with the separator, and the last one of the row with a line break. -/
def endCells (separator : Markup) (last : Bool) : List (List Markup) → List Markup
  | [] => []
  | [cell] => cell ++ [if last then textLine "\n" else separator]
  | cell :: cells => cell ++ [separator] ++ endCells separator last cells

def rowLines (context : Text) (separator : Markup) : List Mapping → List Markup
  | [] => []
  | m :: ms =>
    .comment (columnNote m) :: endCells separator ms.isEmpty (cells context m) ++
      rowLines context separator ms

def outputTag : Tag :=
  ⟨"xsl:output", [Attr.of "method" "text", Attr.of "encoding" "UTF-8"]⟩

def body (set : MappingSet) (delimiter : Text) (columns : List Mapping) : List Markup :=
  [.line (.empty outputTag),
    .block (templateTag "/")
      [textLine (headerRow columns delimiter),
        .line (.empty (instruction "xsl:apply-templates" "select" (root set)))],
    .block (templateTag (record set)) (rowLines (context set) (textLine delimiter) columns),
    .line (.empty (templateTag "text()"))]

def header (set : MappingSet) (options : Options) : Tag :=
  headerTag (set.versionOr "1.0") [] options.namespaces

def text (set : MappingSet) (options : Options) (mappings : List Mapping) : Text :=
  sheetText options.indent (header set options) (body set options.delimiter (columns mappings))

end FieldMap.Stylesheet.FlatSheet
