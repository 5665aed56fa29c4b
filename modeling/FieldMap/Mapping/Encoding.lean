import FieldMap.Json.Shape
import FieldMap.Mapping.Basic
import FieldMap.Namespaces

/-!
Mappings as JSON. Fields at their default are left out when written, and take their default when
they are missing. Attributes and variables are checked as soon as their record is read.
-/

namespace FieldMap

open Json (Decoder Origin Member)

namespace SourceType

def names : List (Text × SourceType) :=
  [("element", .element), ("attribute", .attribute)]

def name : SourceType → Text
  | .element => "element"
  | .attribute => "attribute"

def decode (origin : Origin) : Decoder SourceType :=
  Json.name origin (Json.known names)

end SourceType

namespace FieldType

def names : List (Text × FieldType) :=
  [("date", .date), ("dateTime", .dateTime), ("time", .time), ("currency", .currency),
    ("numeric", .numeric), ("decimal", .decimal), ("component", .component), ("string", .string)]

def name : FieldType → Text
  | .date => "date"
  | .dateTime => "dateTime"
  | .time => "time"
  | .currency => "currency"
  | .numeric => "numeric"
  | .decimal => "decimal"
  | .component => "component"
  | .string => "string"

/-- The type of a name; a name that is not known is a text field. -/
def ofName (name : Text) : FieldType :=
  (Json.named? names name).getD .string

def decode (origin : Origin) : Decoder FieldType :=
  Json.name origin fun name => .ok (ofName name)

end FieldType

namespace ValueType

def names : List (Text × ValueType) :=
  [("xpath", .xpath), ("hardcoded", .hardcoded), ("empty", .empty)]

def name : ValueType → Text
  | .xpath => "xpath"
  | .hardcoded => "hardcoded"
  | .empty => "empty"

def decode (origin : Origin) : Decoder ValueType :=
  Json.name origin (Json.known names)

end ValueType

namespace Attribute

def table : List (Member Loose) :=
  [(Member.text "name" (·.name) fun x r => { r with name := x }).must,
    .optionalText "value" (·.value) fun x r => { r with value := x },
    .flag false "isHardcoded" (·.isHardcoded) fun x r => { r with isHardcoded := x },
    .flag false "isVariable" (·.isVariable) fun x r => { r with isVariable := x },
    .optionalText "xpath" (·.xpath) fun x r => { r with xpath := x }]

def decode (origin : Origin) : Decoder Attribute := fun v => do
  let raw ← Json.record "RawAttributeSpec" table ⟨[], none, false, false, none⟩ origin v
  match ofLoose raw with
  | .ok a => .ok a
  | .error fault => .error (.rejected (fault.message raw.name))

def encode (a : Attribute) : Json :=
  .obj (Json.members table a.toLoose)

end Attribute

namespace Variable

def table : List (Member Loose) :=
  [(Member.text "name" (·.name) fun x r => { r with name := x }).must,
    .optionalText "value" (·.value) fun x r => { r with value := x },
    .optionalText "xpath" (·.xpath) fun x r => { r with xpath := x }]

def decode (origin : Origin) : Decoder Variable := fun v => do
  let raw ← Json.record "RawVariable" table ⟨[], none, none⟩ origin v
  match ofLoose raw with
  | .ok a => .ok a
  | .error fault => .error (.rejected (fault.message raw.name))

def encode (v : Variable) : Json :=
  .obj (Json.members table v.toLoose)

end Variable

def Json.ofItems {α : Type} (encode : α → Json) (items : List α) : Json :=
  .arr (items.map encode)

namespace RootElement

def table : List (Member RootElement) :=
  [(Member.text "name" (·.name) fun x r => { r with name := x }).must,
    .unlessAt [] "attributes" (fun origin => Json.list (Attribute.decode origin))
      (Json.ofItems Attribute.encode) (·.attributes) fun x r => { r with attributes := x }]

def decode : Origin → Decoder RootElement :=
  Json.record "RootElement" table ⟨[], []⟩

def encode (r : RootElement) : Json :=
  .obj (Json.members table r)

end RootElement

namespace Mapping

def table : List (Member Mapping) :=
  [.text "sourcePath" (·.sourcePath) fun x m => { m with sourcePath := x },
    .value "sourceType" SourceType.decode (.str ·.name) (·.sourceType)
      fun x m => { m with sourceType := x },
    .text "targetName" (·.targetName) fun x m => { m with targetName := x },
    .optionalText "targetPath" (·.targetPath) fun x m => { m with targetPath := x },
    .value "fieldType" FieldType.decode (.str ·.name) (·.fieldType)
      fun x m => { m with fieldType := x },
    .unlessAt 1 "occurs" (fun _ => Json.count) (.int ·) (·.occurs) fun x m => { m with occurs := x },
    .flag true "required" (·.required) fun x m => { m with required := x },
    .unlessAt [] "attributes" (fun origin => Json.list (Attribute.decode origin))
      (Json.ofItems Attribute.encode) (·.attributes) fun x m => { m with attributes := x },
    .value "valueType" ValueType.decode (.str ·.name) (·.valueType)
      fun x m => { m with valueType := x },
    .optionalText "hardcodedValue" (·.hardcodedValue) fun x m => { m with hardcodedValue := x },
    .optionalText "forEachPath" (·.forEachPath) fun x m => { m with forEachPath := x },
    .flag false "isPlaceholder" (·.isPlaceholder) fun x m => { m with isPlaceholder := x }]

def decode : Origin → Decoder Mapping :=
  Json.record "Mapping" table {}

def encode (m : Mapping) : Json :=
  .obj (Json.members table m)

end Mapping

namespace MappingSet

def table : List (Member MappingSet) :=
  [.value "fields" (fun origin => Json.list (Mapping.decode origin)) (Json.ofItems Mapping.encode)
      (·.fields) fun x s => { s with fields := x },
    .optionalText "rootPath" (·.rootPath) fun x s => { s with rootPath := x },
    .optionalText "recordPath" (·.recordPath) fun x s => { s with recordPath := x },
    .optional "rootElement" RootElement.decode RootElement.encode (·.rootElement)
      fun x s => { s with rootElement := x },
    .unlessAt [] "variables" (fun origin => Json.list (Variable.decode origin))
      (Json.ofItems Variable.encode) (·.globals) fun x s => { s with globals := x },
    .optionalText "xsltVersion" (·.xsltVersion) fun x s => { s with xsltVersion := x }]

def decode : Origin → Decoder MappingSet :=
  Json.record "MappingSet" table {}

def encode (s : MappingSet) : Json :=
  .obj (Json.members table s)

end MappingSet

namespace Namespaces

/-- A later entry for a name replaces an earlier one. -/
def decode : Decoder Namespaces := fun v =>
  (Json.table Json.text v).map ofList

def encode (t : Namespaces) : Json :=
  .obj (t.entries.map fun (name, uri) => (name, .str uri))

end Namespaces

end FieldMap
