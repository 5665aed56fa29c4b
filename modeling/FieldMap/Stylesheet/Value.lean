import FieldMap.Mapping.Basic
import FieldMap.Path.Relative
import FieldMap.Path.Source

/-!
How a field's value is read and shown. A value inside a loop is read relative to the loop's context
node where that is possible. The format of a value depends on the type of its field alone.
-/

namespace FieldMap.Stylesheet

inductive ValueFormat where
  /-- The value, or the current time where it is missing. -/
  | dateWithFallback
  | twoDecimals (currency : Bool)
  | raw
  | text
deriving DecidableEq

def ValueFormat.ofType : FieldType → ValueFormat
  | .date | .dateTime => .dateWithFallback
  | .currency => .twoDecimals true
  | .decimal | .numeric => .twoDecimals false
  | .time => .raw
  | .string | .component => .text

def currentDateTime : Text := "substring(string(current-dateTime()), 1, 19)"

def twoDecimals (select : Text) : Text :=
  "format-number(" ++ select ++ ",'0.00')"

def missingNote (m : Mapping) : Text :=
  if m.required then "required field '" ++ m.targetName ++ "' has no value"
  else "optional field '" ++ m.targetName ++ "' not present"

/-- The path of the loop around a place in the output, if there is one. -/
abbrev Context := Option Text

def valueSelect (source : SourcePath) (context : Context) : Text :=
  (context.bind (Path.relativeTo source.full)).getD source.valueRef

def repetitionPath (m : Mapping) : Text :=
  match m.forEach with
  | some path => path
  | none =>
    match SourcePath.parse m.sourcePath with
    | .attribute parent _ => if parent = [] then ['.'] else parent
    | .element _ _ path => path

def loopSelect (path : Text) (context : Context) : Text :=
  (context.bind (Path.relativeTo path)).getD path

/-- The loop that a mapping asks for. -/
def loopPath? (m : Mapping) : Option Text :=
  if m.repeats then some (repetitionPath m) else none

inductive ValueSource where
  | literal (text : Text)
  | empty
  | select (expression : Text)
deriving DecidableEq

def valueSource (m : Mapping) (context : Context) : ValueSource :=
  match m.valueType with
  | .hardcoded => .literal (m.hardcodedValue.getD [])
  | .empty => .empty
  | .xpath => .select (valueSelect (SourcePath.parse m.sourcePath) context)

end FieldMap.Stylesheet
