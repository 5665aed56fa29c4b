import FieldMap.Generation
import FieldMap.Validation

/-!
Project files: a mapping set with the settings to generate it, as JSON text. The format is kept by
its name, so that an unknown one is reported when it is used.
-/

namespace FieldMap

structure Project where
  format : Option Text := none
  delimiter : Option Text := none
  namespaces : Namespaces := .empty
  jsonValues : JsonValues := .direct
  mappingSet : MappingSet := {}
deriving DecidableEq

namespace Project

open Json (Decoder Member Origin)

def table : List (Member Project) :=
  [.optionalText "format" (·.format) fun x p => { p with format := x },
    .optionalText "delimiter" (·.delimiter) fun x p => { p with delimiter := x },
    .value "namespaces" (fun _ => Namespaces.decode) Namespaces.encode (·.namespaces)
      fun x p => { p with namespaces := x },
    .value "jsonValues" JsonValues.decode (.str ·.name) (·.jsonValues)
      fun x p => { p with jsonValues := x },
    (Member.value "mappingSet" MappingSet.decode MappingSet.encode (·.mappingSet)
      fun x p => { p with mappingSet := x }).must]

def decode : Origin → Decoder Project :=
  Json.record "ProjectConfig" table {}

def encode (p : Project) : Json :=
  .obj (Json.members table p)

/-- Reads project text. A problem is reported where it is met, so a wrong value comes before an error
in the text after it. -/
def parse (text : Text) : Except Json.Fault Project :=
  match Json.read text with
  | (value, ended) =>
    match decode .text value with
    | .error e => .error e
    | .ok p => if ended then .ok p else .error .malformed

inductive RunFault where
  | unsupported (format : Text)
  | invalid (fault : Validation.Fault)
deriving DecidableEq

def RunFault.message : RunFault → Text
  | .unsupported format => "Generation failed: " ++ OutputFormat.unsupported format
  | .invalid fault => "Validation failed: " ++ fault.message

/-- The wanted format: the one asked for, else the project's, else XML. -/
def wantedFormat (p : Project) (asked : Option Text) : Except RunFault OutputFormat :=
  match asked.or p.format with
  | none => .ok .xml
  | some name =>
    match OutputFormat.ofName? name with
    | some format => .ok format
    | none => .error (.unsupported name)

def options (p : Project) (delimiter : Option Text) : Options :=
  let base : Options := { namespaces := p.namespaces, jsonValues := p.jsonValues }
  { base with delimiter := (delimiter.or p.delimiter).getD base.delimiter }

def run (p : Project) (format delimiter : Option Text) (check : Bool) : Except RunFault Report := do
  let format ← p.wantedFormat format
  let report := generate format p.mappingSet (p.options delimiter)
  match if check then Validation.fault? (some format) report.stylesheet else none with
  | some fault => .error (.invalid fault)
  | none => .ok report

end Project

end FieldMap
