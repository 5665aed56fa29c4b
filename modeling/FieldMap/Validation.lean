import FieldMap.Stylesheet.Sheet
import FieldMap.Xml.Document

/-!
Checking stylesheet text: it is an XML document whose outermost element is named `stylesheet`, and for
JSON output it has exactly one outermost map.
-/

namespace FieldMap.Validation

inductive Fault where
  | notXml
  | wrongRoot (name : Text)
  | mapCount (found : Nat)
deriving DecidableEq

def Fault.message : Fault → Text
  | .notXml => "XML parsing error"
  | .wrongRoot name =>
    "Malformed stylesheet: root element is '" ++ name ++ "', expected 'stylesheet'"
  | .mapCount found =>
    "Malformed stylesheet: expected exactly one top-level xsl:map, found " ++ Text.ofNat found

def isMap (name : Xml.QName) (space : Option Text) : Bool :=
  name.base = "map".toList && space = some Stylesheet.xslUri

mutual

/-- The maps in a node that do not lie in another map. -/
def outerMaps : Xml.Node → Nat
  | .element name space _ children => if isMap name space then 1 else outerMapsIn children
  | _ => 0

def outerMapsIn : List Xml.Node → Nat
  | [] => 0
  | n :: ns => outerMaps n + outerMapsIn ns

end

def baseName : Xml.Node → Text
  | .element name .. => name.base
  | _ => []

/-- The first rule that a text breaks, in the rules of a format if one is given. -/
def fault? (format : Option OutputFormat) (text : Text) : Option Fault :=
  match Xml.parse? text with
  | none => some .notXml
  | some root =>
    if baseName root ≠ "stylesheet" then some (.wrongRoot (baseName root))
    else if format = some .json ∧ outerMaps root ≠ 1 then some (.mapCount (outerMaps root))
    else none

end FieldMap.Validation
