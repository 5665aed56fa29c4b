import FieldMap.Json.Number

/-!
Tokens of JSON text. White space separates tokens; the text from the first place where no token
stands is one `bad` token.
-/

namespace FieldMap.Json

inductive Token where
  | openArray | closeArray | openObject | closeObject | comma | colon
  /-- A number or a literal name. -/
  | scalar (value : Json)
  /-- A string, if its characters can be read. -/
  | string (s : Option Text)
  | bad

def isSpace (c : Char) : Bool :=
  c = ' ' || c = '\n' || c = '\t' || c = '\r'

def hexDigit? (c : Char) : Option Nat :=
  if c.isDigit then some (c.toNat - '0'.toNat)
  else if 'a' ≤ c && c ≤ 'f' then some (c.toNat - 'a'.toNat + 10)
  else if 'A' ≤ c && c ≤ 'F' then some (c.toNat - 'A'.toNat + 10)
  else none

def unit? (a b c d : Char) : Option Nat := do
  let a ← hexDigit? a
  let b ← hexDigit? b
  let c ← hexDigit? c
  let d ← hexDigit? d
  some (((a * 16 + b) * 16 + c) * 16 + d)

def escaped? (c : Char) : Option Char :=
  match c with
  | '"' => some '"'
  | '\\' => some '\\'
  | '/' => some '/'
  | 'b' => some '\x08'
  | 'f' => some '\x0c'
  | 'n' => some '\n'
  | 'r' => some '\r'
  | 't' => some '\t'
  | _ => none

/-- The code units of a string up to its closing quote, and the text after it; `done` holds those
read so far, latest first. Control characters must be escaped. -/
def units? (done : List Nat) : Text → Option (List Nat × Text)
  | [] => none
  | '"' :: rest => some (done.reverse, rest)
  | '\\' :: 'u' :: a :: b :: c :: d :: rest =>
    match unit? a b c d with
    | some u => units? (u :: done) rest
    | none => none
  | '\\' :: e :: rest =>
    match escaped? e with
    | some x => units? (x.toNat :: done) rest
    | none => none
  | c :: rest => if c.toNat < 0x20 || c = '\\' then none else units? (c.toNat :: done) rest

def isHighUnit (u : Nat) : Bool :=
  0xD800 ≤ u && u < 0xDC00

def isLowUnit (u : Nat) : Bool :=
  0xDC00 ≤ u && u < 0xE000

/-- The characters of a list of code units: a high unit and the low unit after it are one character,
and neither stands alone. A character above the first plane may also be a unit by itself. -/
def ofUnits? (done : Text) : List Nat → Option Text
  | [] => some done.reverse
  | [u] => if isHighUnit u || isLowUnit u then none else some (Char.ofNat u :: done).reverse
  | u :: v :: rest =>
    if isHighUnit u then
      if isLowUnit v then
        ofUnits? (Char.ofNat (0x10000 + (u - 0xD800) * 0x400 + (v - 0xDC00)) :: done) rest
      else none
    else if isLowUnit u then none
    else ofUnits? (Char.ofNat u :: done) (v :: rest)

def ofName (name : Text) (value : Json) (t : Text) : Token × Text :=
  match Text.after? name t with
  | some rest => (.scalar value, rest)
  | none => (.bad, [])

/-- The token at the start of a text, and the text after it. -/
def nextToken (c : Char) (rest : Text) : Token × Text :=
  match c with
  | '[' => (.openArray, rest)
  | ']' => (.closeArray, rest)
  | '\x7b' => (.openObject, rest)
  | '\x7d' => (.closeObject, rest)
  | ',' => (.comma, rest)
  | ':' => (.colon, rest)
  | 'n' => ofName "ull" .null rest
  | 't' => ofName "rue" (.bool true) rest
  | 'f' => ofName "alse" (.bool false) rest
  | '"' =>
    match units? [] rest with
    | none => (.bad, [])
    | some (us, after) => (.string (ofUnits? [] us), after)
  | _ =>
    match literal? (c :: rest) with
    | some (l, after) => (.scalar l.value, after)
    | none => (.bad, [])

/-- The tokens of a text, up to the first place that is no token; every token takes a character, so
the length of the text bounds their number. -/
def tokensUpTo : (bound : Nat) → Text → List Token
  | 0, _ => []
  | bound + 1, t =>
    match t.dropWhile isSpace with
    | [] => []
    | c :: cs =>
      match nextToken c cs with
      | (token, rest) => token :: tokensUpTo bound rest

def tokens (t : Text) : List Token :=
  tokensUpTo t.length t

end FieldMap.Json
