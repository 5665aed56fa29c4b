import FieldMap.Path.Steps

/-!
Positions on paths: the n-th of the nodes that a path selects, by a predicate on its last step that
is neither an attribute nor the context node.
-/

namespace FieldMap.Path

/-- A step that can carry a position. -/
def takesPosition (step : Text) : Bool :=
  step.head? ≠ some '@' && step ≠ ['.']

def markFirst (mark : Text) : List Text → List Text
  | [] => []
  | step :: rest => if takesPosition step then (step ++ mark) :: rest else step :: markFirst mark rest

/-- The path with a position predicate; its leading slashes are kept. -/
def withPosition (path : Text) (position : Nat) : Text :=
  let mark := "[" ++ Text.ofNat position ++ "]"
  let marked := (markFirst mark (steps (path.dropWhile (· = '/'))).reverse).reverse
  path.takeWhile (· = '/') ++ List.intercalate "/" marked

end FieldMap.Path
