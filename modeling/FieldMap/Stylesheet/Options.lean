import FieldMap.Mapping.Encoding

/-!
Output formats and the options of a generation run.
-/

namespace FieldMap

inductive OutputFormat where
  | xml
  | json
  /-- One line of delimited text for each record. -/
  | flat
deriving DecidableEq

namespace OutputFormat

def name : OutputFormat → Text
  | .xml => "xml"
  | .json => "json"
  | .flat => "flat"

/-- The format of a name in any case, with white space around it; `csv` is flat text. -/
def ofName? (name : Text) : Option OutputFormat :=
  let lower := Text.lowerAscii (Text.trim name)
  if lower = "xml" then some .xml
  else if lower = "json" then some .json
  else if lower = "flat" ∨ lower = "csv" then some .flat
  else none

def unsupported (name : Text) : Text :=
  "Unsupported output format '" ++ name ++ "' (expected xml, json, flat or csv)"

def names : List (Text × OutputFormat) :=
  [("xml", .xml), ("json", .json), ("csv", .flat), ("flat", .flat)]

def decode (origin : Json.Origin) : Json.Decoder OutputFormat :=
  Json.name origin (Json.known names)

end OutputFormat

/-- How values go into JSON output: as selected, or by an expression for their type. -/
inductive JsonValues where
  | direct
  | typed
deriving DecidableEq

namespace JsonValues

def names : List (Text × JsonValues) :=
  [("direct", .direct), ("typed", .typed)]

def name : JsonValues → Text
  | .direct => "direct"
  | .typed => "typed"

def decode (origin : Json.Origin) : Json.Decoder JsonValues :=
  Json.name origin (Json.known names)

end JsonValues

structure Options where
  namespaces : Namespaces := .empty
  delimiter : Text := [',']
  jsonValues : JsonValues := .direct
  /-- Spaces for each level of the stylesheet text. -/
  indent : Nat := 2
deriving DecidableEq

end FieldMap
