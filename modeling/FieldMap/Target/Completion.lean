import FieldMap.Target.Tree

/-!
Completing a list of mappings: every container on a target path that has no mapping of its own
gets a placeholder at the end of the list.
-/

namespace FieldMap.Target

/-- The proper, non-empty beginnings of a list, shortest first. -/
def properInits {α : Type} : List α → List (List α)
  | a :: b :: rest => [a] :: (properInits (b :: rest)).map (a :: ·)
  | _ => []

def pathText (names : List Text) : Text :=
  List.intercalate "/" names

/-- The containers that no mapping describes, in the order in which they are first needed. -/
def gaps (mappings : List Mapping) : List Text :=
  let explicit := mappings.map fun m => pathText m.segments
  let needed := mappings.flatMap fun m => (properInits m.segments).map pathText
  distinct (needed.filter fun path => !explicit.contains path)

def complete (mappings : List Mapping) : List Mapping :=
  mappings ++ (gaps mappings).map Mapping.placeholder

end FieldMap.Target
