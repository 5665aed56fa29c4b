import FieldMap.Diagnostic
import FieldMap.Markup.Tree
import FieldMap.Stylesheet.Options
import FieldMap.Stylesheet.Value
import FieldMap.Target.Tree

/-!
What all stylesheets share: the declaration and the outermost tag with its namespaces, the tags of
instructions, and the markup of attributes and loops.
-/

namespace FieldMap.Stylesheet

open Markup (Attr Tag Inline Step)

def xslUri : Text := "http://www.w3.org/1999/XSL/Transform"

def schemaUri : Text := "http://www.w3.org/2001/XMLSchema"

def declaration : Text := "<?xml version=\"1.0\" encoding=\"UTF-8\"?>"

/-- The namespaces with a prefix that the outermost tag declares beside its own: those the sheet
itself needs, and those of the table that do not repeat one of them. -/
def declared (own : List (Text × Text)) (table : Namespaces) : List (Text × Text) :=
  own ++ table.prefixed.filter fun e => e.1 ≠ "xsl".toList && !own.any (·.1 = e.1)

/-- The outermost tag. Declared prefixes are kept out of the result; they stand as given, also
where they are no names. -/
def headerTag (version : Text) (own : List (Text × Text)) (table : Namespaces) : Tag :=
  let spaces := declared own table
  let excluded := List.intercalate " " (spaces.map (·.1))
  ⟨"xsl:stylesheet",
    [Attr.of "version" version, Attr.of "xmlns:xsl" xslUri] ++
      spaces.map (fun e => Attr.of ("xmlns:" ++ e.1) e.2) ++
      (table.defaultUri?.map (Attr.of "xmlns")).toList ++
      if spaces.isEmpty then [] else [⟨"exclude-result-prefixes", excluded⟩]⟩

def sheetSteps (header : Tag) (body : List Markup) : List Step :=
  .line declaration :: (Markup.block header body).steps

def sheetText (indent : Nat) (header : Tag) (body : List Markup) : Text :=
  Markup.layout indent (sheetSteps header body)

def instruction (name attr value : Text) : Tag :=
  ⟨name, [Attr.of attr value]⟩

def valueOf (select : Text) : Inline :=
  .empty (instruction "xsl:value-of" "select" select)

def templateTag (pattern : Text) : Tag :=
  instruction "xsl:template" "match" pattern

/-- Lines inside a loop over a path, or where there is no loop, as they are. `body` gives the lines for
the context in which they stand. -/
def looped (path? : Option Text) (context : Context) (body : Context → List Markup) : List Markup :=
  match path? with
  | none => body context
  | some path =>
    [.block (instruction "xsl:for-each" "select" (loopSelect path context)) (body (some path))]

/-- The value of an attribute as a template: literal text, a variable or an expression. -/
def attributeTemplate : Attribute.Value → Text
  | .hardcoded text => Markup.doubleBraces text
  | .variable name => "\x7b$" ++ Markup.elementName name ++ "\x7d"
  | .xpath expression => "\x7b" ++ expression ++ "\x7d"

def attributeMarkup (a : Attribute) : Attr :=
  Attr.of (Markup.elementName a.name) (attributeTemplate a.value)

def shadowedDiagnostics (nodes : List Target.Node) : List Diagnostic :=
  (Target.shadowed nodes).map fun row =>
    .warning .unsupported
      ("value of '" ++ row.mapping.sourcePath ++ "' is not rendered: target '" ++
        row.mapping.effectivePath ++ "' is a container")

def dateChoice (select : Text) : Markup :=
  .block (Tag.of "xsl:choose")
    [.line (.around (instruction "xsl:when" "test" select) (valueOf select)),
      .line (.around (Tag.of "xsl:otherwise") (valueOf currentDateTime))]

end FieldMap.Stylesheet
