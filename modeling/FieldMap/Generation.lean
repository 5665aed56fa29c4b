import FieldMap.Prepare
import FieldMap.Stylesheet.FlatSheet
import FieldMap.Stylesheet.JsonSheet
import FieldMap.Stylesheet.XmlSheet
import FieldMap.Target.Completion

/-!
Generating a stylesheet: the rows of the table are prepared and completed, and then written in the
wanted format.
-/

namespace FieldMap

/-- A stylesheet with what is to be said about it. -/
structure Sheet where
  text : Text
  diagnostics : List Diagnostic
deriving DecidableEq

def Sheet.emit (format : OutputFormat) (set : MappingSet) (options : Options)
    (mappings : List Mapping) : Sheet :=
  match format with
  | .xml =>
    ⟨Stylesheet.XmlSheet.text set options mappings,
      Stylesheet.XmlSheet.diagnostics set mappings⟩
  | .json =>
    ⟨Stylesheet.JsonSheet.text set options mappings, Stylesheet.JsonSheet.diagnostics mappings⟩
  | .flat => ⟨Stylesheet.FlatSheet.text set options mappings, []⟩

structure Report where
  format : OutputFormat
  stylesheet : Text
  skipped : Nat
  diagnostics : List Diagnostic
deriving DecidableEq

def generate (format : OutputFormat) (set : MappingSet) (options : Options) : Report :=
  let prepared := Prepared.ofFields set.fields
  let sheet := Sheet.emit format set options (Target.complete prepared.mappings)
  { format
    stylesheet := sheet.text
    skipped := prepared.skipped
    diagnostics := prepared.diagnostics ++ sheet.diagnostics }

end FieldMap
