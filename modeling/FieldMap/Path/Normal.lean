import FieldMap.Path.Steps
import FieldMap.Text.Letters
import FieldMap.Text.Numerals

/-!
Normal form of a source path. A leading file name is dropped, dots that separate steps become
slashes, and a path that neither starts at the root nor with a wildcard is searched for anywhere
(`//`). Problems are noted and do not stop the rewriting.
-/

namespace FieldMap.Path

inductive Issue where
  | unbalancedBrackets (path : Text)
  | invalidStart (path : Text) (found : Char)
deriving DecidableEq

def Issue.message : Issue → Text
  | .unbalancedBrackets path => "Unbalanced brackets in path '" ++ path ++ "'"
  | .invalidStart path found =>
    "Path '" ++ path ++ "' starts with invalid character '" ++ [found] ++ "'"

structure Normalized where
  path : Text
  issues : List Issue
deriving DecidableEq

def isAlphanumeric (c : Char) : Bool :=
  Text.isAlphabetic c || Text.isNumeral c

def endsStep (c : Char) : Bool :=
  isAlphanumeric c || c = '_' || c = '-' || c = ':' || c = ']'

def beginsStep (c : Char) : Bool :=
  Text.isAlphabetic c || c = '_' || c = '@' || c = '*'

/-- A name with the ending `.xml`, not made of predicates, attributes or wildcards. -/
def isFileName (head : Text) : Bool :=
  4 < head.length && Text.endsWith ".xml" (Text.lowerAscii head) &&
    !head.any fun c => c = '[' || c = '@' || c = '*'

/-- The path after its leading file name, if it has one. -/
def dropFileName (path : Text) : Text :=
  match path.dropWhile (· ≠ '/') with
  | [] => path
  | _ :: rest => if isFileName (path.takeWhile (· ≠ '/')) then rest else path

/-- Turns the dots outside predicates that stand between two steps into slashes. `before` is the
character before the text and `depth` the number of brackets open there. -/
def separateDots : (before : Option Char) → (depth : Nat) → Text → Text
  | _, _, [] => []
  | before, depth, c :: cs =>
    if c = '[' then c :: separateDots (some c) (depth + 1) cs
    else if c = ']' then c :: separateDots (some c) (depth - 1) cs
    else if c = '.' && depth == 0 && before.any endsStep && cs.head?.any beginsStep then
      '/' :: separateDots (some c) depth cs
    else c :: separateDots (some c) depth cs

def cleaned (raw : Text) : Text :=
  separateDots none 0 (dropFileName (Text.trim raw))

/-- A path may start with a letter, a slash, a wildcard or an attribute. -/
def mayStart (c : Char) : Bool :=
  Text.isAlphabetic c || c = '/' || c = '*' || c = '@'

def issues (path : Text) : List Issue :=
  (if balanced path then [] else [.unbalancedBrackets path]) ++
    match path with
    | [] => []
    | c :: _ => if mayStart c then [] else [.invalidStart path c]

/-- The path as a stylesheet reads it: searched for anywhere unless it says where it starts. -/
def anchor (path : Text) : Text :=
  match path with
  | [] => "//"
  | c :: _ => if c = '/' || c = '*' then path else "//" ++ path

/-- Normal form of a path with the issues found on the way. Blank paths stay empty. -/
def normalize (raw : Text) : Normalized :=
  if Text.trim raw = [] then ⟨[], []⟩
  else ⟨anchor (cleaned raw), issues (cleaned raw)⟩

end FieldMap.Path
