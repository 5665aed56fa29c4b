import FieldMap.Text.Basic

/-!
Diagnostics: what a generation run could not use or had to leave out. None of them stops a
stylesheet from being written.
-/

namespace FieldMap

namespace Diagnostic

inductive Kind where
  | malformedInput
  | invalidXPath
  | unknownVariable
  | unsupported
deriving DecidableEq

inductive Severity where
  | info
  | warning
deriving DecidableEq

def Kind.title : Kind → Text
  | .malformedInput => "MalformedInput"
  | .invalidXPath => "InvalidXPath"
  | .unknownVariable => "UnknownVariable"
  | .unsupported => "Unsupported"

end Diagnostic

structure Diagnostic where
  kind : Diagnostic.Kind
  severity : Diagnostic.Severity
  message : Text
deriving DecidableEq

namespace Diagnostic

def warning (kind : Kind) (message : Text) : Diagnostic :=
  ⟨kind, .warning, message⟩

def display (d : Diagnostic) : Text :=
  d.kind.title ++ ": " ++ d.message

def logLine (d : Diagnostic) : Text :=
  (match d.severity with
    | .warning => "warn: "
    | .info => "info: ") ++ d.display

def countKind (kind : Kind) (ds : List Diagnostic) : Nat :=
  ds.countP (·.kind = kind)

end Diagnostic

end FieldMap
