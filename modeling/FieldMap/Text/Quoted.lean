import FieldMap.Text.Hidden

/-!
Text between double quotes for messages. Quotes and backslashes are escaped, and characters that
would not show are written as escapes or by their code point.
-/

namespace FieldMap.Text

def hex (n : Nat) : Text :=
  Nat.toDigits 16 n

def quoteChar (c : Char) : Text :=
  match c with
  | '"' => "\\\""
  | '\\' => "\\\\"
  | '\x00' => "\\0"
  | '\t' => "\\t"
  | '\n' => "\\n"
  | '\r' => "\\r"
  | c => if isHidden c then "\\u\x7b" ++ hex c.toNat ++ "\x7d" else [c]

def doubleQuoted (t : Text) : Text :=
  '"' :: (t.flatMap quoteChar ++ ['"'])

end FieldMap.Text
