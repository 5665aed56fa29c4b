import FieldMap.Markup.Escape

/-!
Layout of markup in lines. Opening a tag indents the lines after it, closing a tag ends that; closing
at the margin stays at the margin.
-/

namespace FieldMap.Markup

inductive Step where
  | line (text : Text)
  | start (tag : Text)
  | finish (tag : Text)
  | comment (text : Text)
deriving DecidableEq

def lineText (indent depth : Nat) (text : Text) : Text :=
  List.replicate (depth * indent) ' ' ++ text ++ "\n"

def Step.text (indent depth : Nat) : Step → Text
  | .line text => lineText indent depth text
  | .start tag => lineText indent depth tag
  | .finish tag => lineText indent (depth - 1) tag
  | .comment text => lineText indent depth ("<!-- " ++ commentText text ++ " -->")

def Step.depthAfter (depth : Nat) : Step → Nat
  | .start _ => depth + 1
  | .finish _ => depth - 1
  | _ => depth

/-- What each step writes, from a depth on. -/
def write (indent : Nat) : (depth : Nat) → List Step → List Text
  | _, [] => []
  | depth, step :: steps => step.text indent depth :: write indent (step.depthAfter depth) steps

def layout (indent : Nat) (steps : List Step) : Text :=
  (write indent 0 steps).flatten

end FieldMap.Markup
