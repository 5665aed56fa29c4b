import FieldMap.Path.Normal

/-!
User text on its way into a stylesheet: escaped text and attribute values, string literals in
expressions, names made from labels, and comments.
-/

namespace FieldMap.Markup

/-- Characters with a meaning in markup, and line breaks and tabs, become references. -/
def escapeTextChar (c : Char) : Text :=
  match c with
  | '<' => "&lt;"
  | '>' => "&gt;"
  | '&' => "&amp;"
  | '\n' => "&#10;"
  | '\r' => "&#13;"
  | '\t' => "&#9;"
  | c => [c]

def escapeText (t : Text) : Text :=
  t.flatMap escapeTextChar

def escapeAttrChar (c : Char) : Text :=
  if c = '"' then "&quot;" else escapeTextChar c

def escapeAttr (t : Text) : Text :=
  t.flatMap escapeAttrChar

/-- In an attribute value template a brace stands for itself when it is doubled. -/
def doubleBraces (t : Text) : Text :=
  t.flatMap fun c => if c = '\x7b' || c = '\x7d' then [c, c] else [c]

def templateLiteral (t : Text) : Text :=
  escapeAttr (doubleBraces t)

/-- A string literal of an expression. Text with both kinds of quotes is put together from parts. -/
def stringLiteral (t : Text) : Text :=
  if '\'' ∉ t then "'" ++ t ++ "'"
  else if '"' ∉ t then "\"" ++ t ++ "\""
  else "concat(" ++ List.intercalate ", \"'\", " ((List.splitOn '\'' t).map Text.quoted) ++ ")"

def isNameChar (c : Char) : Bool :=
  Path.isAlphanumeric c || c = '_' || c = '-' || c = '.' || c = ':'

/-- The name made from a label: other characters become underscores, and an underscore goes in front
of a name that would not start with a letter. -/
def elementName (label : Text) : Text :=
  let name := (Text.trim label).map fun c => if isNameChar c then c else '_'
  match name with
  | c :: _ => if Text.isAlphabetic c || c = '_' then name else '_' :: name
  | [] => ['_']

/-- Takes pairs of hyphens apart, from the left. -/
def spaceHyphens : Text → Text
  | '-' :: '-' :: rest => '-' :: ' ' :: '-' :: spaceHyphens rest
  | c :: rest => c :: spaceHyphens rest
  | [] => []

/-- Text for a comment, which does not end in a hyphen. -/
def commentText (t : Text) : Text :=
  Text.dropEndWhile (· = '-') (spaceHyphens t)

end FieldMap.Markup
