import FieldMap.Mapping.Attribute

/-!
Field mappings: each binds a source path to a place in the output. A mapping needs a source path
and a target name; everything else has a default.
-/

namespace FieldMap

inductive SourceType where
  | element
  | attribute
deriving DecidableEq

inductive FieldType where
  | date
  | dateTime
  | time
  | currency
  | numeric
  | decimal
  /-- A container without a value of its own. -/
  | component
  | string
deriving DecidableEq

inductive ValueType where
  | xpath
  | hardcoded
  | empty
deriving DecidableEq

structure Mapping where
  sourcePath : Text := []
  sourceType : SourceType := .element
  targetName : Text := []
  /-- Slash-separated place in the output; the target name stands in for a missing one. -/
  targetPath : Option Text := none
  fieldType : FieldType := .string
  occurs : Nat := 1
  required : Bool := true
  attributes : List Attribute := []
  valueType : ValueType := .xpath
  hardcodedValue : Option Text := none
  forEachPath : Option Text := none
  /-- Made up to fill a gap in the target paths. -/
  isPlaceholder : Bool := false
deriving DecidableEq

namespace Mapping

inductive Fault where
  | noSource (target : Text)
  | noTarget (source : Text)
deriving DecidableEq

def Fault.message : Fault → Text
  | .noSource target => "Malformed mapping: mapping '" ++ target ++ "' has no source path"
  | .noTarget source => "Malformed mapping: mapping for '" ++ source ++ "' has no target name"

/-- What makes a mapping unusable, if anything does. -/
def fault? (m : Mapping) : Option Fault :=
  if Text.allBlank m.sourcePath then some (.noSource m.targetName)
  else if Text.allBlank m.targetName then some (.noTarget m.sourcePath)
  else none

def make (source target : Text) : Except Fault Mapping :=
  let m : Mapping := { sourcePath := source, targetName := target }
  match m.fault? with
  | some fault => .error fault
  | none => .ok m

def lastName (path : Text) : Text :=
  (List.splitOn '/' path).getLast?.getD []

/-- The container that fills in for a missing target path. -/
def placeholder (path : Text) : Mapping :=
  { sourcePath := "//" ++ path.map fun c => if c = '/' then '_' else c
    targetName := lastName path
    targetPath := some path
    fieldType := .component
    required := false
    isPlaceholder := true }

def stripSlashes (path : Text) : Text :=
  Text.dropEndWhile (· = '/') (path.dropWhile (· = '/'))

/-- The target path as far as it says something, else the target name. -/
def effectivePath (m : Mapping) : Text :=
  match m.targetPath with
  | none => Text.trim m.targetName
  | some path =>
    let stripped := stripSlashes (Text.trim path)
    if stripped = [] then Text.trim m.targetName else stripped

/-- The non-blank names on the target path. -/
def segments (m : Mapping) : List Text :=
  ((List.splitOn '/' m.effectivePath).map Text.trim).filter (· ≠ [])

/-- A field occurs at least once. -/
def occurrences (m : Mapping) : Nat :=
  max m.occurs 1

def forEach (m : Mapping) : Option Text :=
  m.forEachPath.bind Text.nonBlank?

def repeats (m : Mapping) : Bool :=
  1 < m.occurrences || m.forEach.isSome

def isComponent (m : Mapping) : Bool :=
  m.fieldType = .component

end Mapping

/-- The rows of a mapping table with the settings that some outputs read. -/
structure MappingSet where
  fields : List Mapping := []
  rootPath : Option Text := none
  recordPath : Option Text := none
  rootElement : Option RootElement := none
  /-- Variables of the whole stylesheet. -/
  globals : List Variable := []
  xsltVersion : Option Text := none
deriving DecidableEq

namespace MappingSet

def root (s : MappingSet) : Option Text :=
  s.rootPath.bind Text.nonBlank?

def record (s : MappingSet) : Option Text :=
  s.recordPath.bind Text.nonBlank?

def versionOr (s : MappingSet) (default : Text) : Text :=
  (s.xsltVersion.bind Text.nonBlank?).getD default

end MappingSet

end FieldMap
