import FieldMap.Json.Basic

/-!
JSON text of a value: compact, or with each member on a line of its own. Quotes, backslashes and
control characters are escaped in strings and nothing else is.
-/

namespace FieldMap.Json

def hexDigit (n : Nat) : Char :=
  if n < 10 then Char.ofNat ('0'.toNat + n) else Char.ofNat ('a'.toNat + (n - 10))

def escapeChar (c : Char) : Text :=
  match c with
  | '"' => "\\\""
  | '\\' => "\\\\"
  | '\x08' => "\\b"
  | '\x0c' => "\\f"
  | '\n' => "\\n"
  | '\r' => "\\r"
  | '\t' => "\\t"
  | c =>
    if c.toNat < 0x20 then "\\u00" ++ [hexDigit (c.toNat / 16), hexDigit (c.toNat % 16)]
    else [c]

def stringText (s : Text) : Text :=
  '"' :: (s.flatMap escapeChar ++ ['"'])

def boolText (b : Bool) : Text :=
  if b then "true" else "false"

mutual

/-- Text without white space. A value that could not be read has no text of its own and is written
as null. -/
def compact : Json → Text
  | .null | .unkeyed _ _ | .unreadable | .broken => "null"
  | .bool b => boolText b
  | .int n => Text.ofInt n
  | .real shown => shown
  | .str s => stringText s
  | .arr items => '[' :: (List.intercalate "," (compactItems items) ++ "]")
  | .obj members => '\x7b' :: (List.intercalate "," (compactMembers members) ++ "\x7d")

def compactItems : List Json → List Text
  | [] => []
  | v :: vs => v.compact :: compactItems vs

def compactMembers : List (Text × Json) → List Text
  | [] => []
  | (k, v) :: rest => (stringText k ++ ":" ++ v.compact) :: compactMembers rest

end

def newLine (depth : Nat) : Text :=
  '\n' :: List.replicate (2 * depth) ' '

/-- A container with its parts on lines of their own; an empty one stays on one line. -/
def block (first last : Char) (depth : Nat) (parts : List Text) : Text :=
  if parts = [] then [first, last]
  else
    first :: (newLine (depth + 1) ++ List.intercalate (',' :: newLine (depth + 1)) parts ++
      newLine depth ++ [last])

mutual

def pretty (depth : Nat) : Json → Text
  | .arr items => block '[' ']' depth (prettyItems (depth + 1) items)
  | .obj members => block '\x7b' '\x7d' depth (prettyMembers (depth + 1) members)
  | v => v.compact

def prettyItems (depth : Nat) : List Json → List Text
  | [] => []
  | v :: vs => v.pretty depth :: prettyItems depth vs

def prettyMembers (depth : Nat) : List (Text × Json) → List Text
  | [] => []
  | (k, v) :: rest => (stringText k ++ ": " ++ v.pretty depth) :: prettyMembers depth rest

end

end FieldMap.Json
