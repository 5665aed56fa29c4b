import FieldMap.Diagnostic
import FieldMap.Mapping.Basic
import FieldMap.Path.Normal

/-!
Preparing the rows of a mapping table: unusable rows are left out, and the paths of the others are
brought to normal form. Each row is treated on its own.
-/

namespace FieldMap

structure Prepared where
  mappings : List Mapping
  skipped : Nat
  diagnostics : List Diagnostic
deriving DecidableEq

namespace Prepared

def issueDiagnostics (path : Path.Normalized) : List Diagnostic :=
  path.issues.map fun issue => .warning .invalidXPath issue.message

def skipDiagnostic (number : Nat) (fault : Mapping.Fault) : Diagnostic :=
  .warning .malformedInput
    ("field #" ++ Text.ofNat number ++ " skipped: " ++ fault.message)

/-- A row by its number in the table: the mapping with its paths in normal form, unless it is
unusable, and what is to be said about it. -/
def row (number : Nat) (m : Mapping) : Option Mapping × List Diagnostic :=
  match m.fault? with
  | some fault => (none, [skipDiagnostic number fault])
  | none =>
    let source := Path.normalize m.sourcePath
    match m.forEach with
    | none => (some { m with sourcePath := source.path }, issueDiagnostics source)
    | some path =>
      let loop := Path.normalize path
      (some { m with sourcePath := source.path, forEachPath := some loop.path },
        issueDiagnostics source ++ issueDiagnostics loop)

def rows : (number : Nat) → List Mapping → List (Option Mapping × List Diagnostic)
  | _, [] => []
  | number, m :: ms => row number m :: rows (number + 1) ms

def ofFields (fields : List Mapping) : Prepared :=
  let results := rows 1 fields
  { mappings := results.filterMap (·.1)
    skipped := results.countP (·.1.isNone)
    diagnostics := results.flatMap (·.2) }

end Prepared

end FieldMap
