import FieldMap.Path.Steps

/-!
Paths relative to the context node of a loop. Steps are compared by name, so a predicate on either
side does not stop a match. A context that starts at the root is matched at the first step;
any other context is matched at its last occurrence.
-/

namespace FieldMap.Path

/-- A wildcard stands for every step but an attribute; other steps match by name. -/
def matchesStep (context step : Text) : Bool :=
  if stepName context = ['*'] then (stepName step).head? ≠ some '@'
  else stepName context = stepName step

def afterContext? : (context path : List Text) → Option (List Text)
  | [], path => some path
  | _ :: _, [] => none
  | c :: cs, s :: ss => if matchesStep c s then afterContext? cs ss else none

def afterLastContext? (context : List Text) : (path : List Text) → Option (List Text)
  | [] => afterContext? context []
  | s :: ss =>
    match afterLastContext? context ss with
    | some rest => some rest
    | none => afterContext? context (s :: ss)

def isAnchored (context : Text) : Bool :=
  match context with
  | '/' :: '/' :: _ => false
  | '/' :: _ => true
  | _ => false

/-- The path as seen from the context node; `.` is the context node itself. -/
def relativeTo (path context : Text) : Option Text :=
  let trimmed := Text.trim context
  match steps trimmed with
  | [] => none
  | c :: cs =>
    let rest? :=
      if isAnchored trimmed then afterContext? (c :: cs) (steps path)
      else afterLastContext? (c :: cs) (steps path)
    rest?.map fun rest => if rest = [] then ['.'] else List.intercalate "/" rest

end FieldMap.Path
