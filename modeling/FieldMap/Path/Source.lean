import FieldMap.Path.Steps

/-!
Source paths taken apart. A path whose last `/@` is followed by a name, or that begins with `@`,
reads an attribute; any other path reads an element.
-/

namespace FieldMap

inductive SourcePath where
  /-- The attribute `name` of the element at `parent`. -/
  | attribute (parent name : Text)
  /-- The element `name` below `parent`; `path` is the path as given. -/
  | element (parent name path : Text)
deriving DecidableEq

namespace SourcePath

def isAttribute : SourcePath → Bool
  | .attribute .. => true
  | .element .. => false

def name : SourcePath → Text
  | .attribute _ name => name
  | .element _ name _ => name

def parent : SourcePath → Text
  | .attribute parent _ => parent
  | .element parent _ _ => parent

/-- Reads the value where no context is known: `@name` or the path itself. -/
def valueRef : SourcePath → Text
  | .attribute _ name => '@' :: name
  | .element _ _ path => path

def full : SourcePath → Text
  | .attribute parent name => parent ++ "/@" ++ name
  | .element _ _ path => path

/-- The text before and after the last `/@`. -/
def lastAttribute? : Text → Option (Text × Text)
  | [] => none
  | c :: cs =>
    match lastAttribute? cs with
    | some (before, after) => some (c :: before, after)
    | none =>
      match cs with
      | d :: rest => if c = '/' ∧ d = '@' then some ([], rest) else none
      | [] => none

def parse (path : Text) : SourcePath :=
  match lastAttribute? path with
  | some (parent, name) => .attribute parent name
  | none =>
    match path with
    | '@' :: name => .attribute [] name
    | _ =>
      let steps := Path.steps path
      .element (List.intercalate "/" steps.dropLast) (steps.getLast?.getD []) path

end SourcePath

end FieldMap
