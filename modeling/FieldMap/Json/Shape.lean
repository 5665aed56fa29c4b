import FieldMap.Json.Printer
import FieldMap.Json.Reader
import FieldMap.Text.Quoted

/-!
Shapes that JSON values are read into: records, lists, tables and names. The first problem met in
the order of the value is reported. A record is an object or an array of its fields in order;
fields that an object does not know are passed over. Reading and writing a record go by one table of
its fields.
-/

namespace FieldMap.Json

/-- Where a value comes from. A value that was read before any shape was known, or one that is
still being read from its text, so that a wrong turn there is a problem of the text. -/
inductive Origin where
  | value
  | text
deriving DecidableEq

inductive Fault where
  /-- The text is not JSON. -/
  | malformed
  | wrongType (found : Json) (expected : Text)
  | wrongValue (found : Json) (expected : Text)
  | wrongLength (length : Nat) (expected : Text)
  | unknownName (name : Text) (known : List Text)
  | missingField (key : Text)
  | repeatedField (key : Text)
  /-- A value of the right shape that breaks a rule. -/
  | rejected (reason : Text)

def called : Json → Text
  | .bool b => "boolean `" ++ boolText b ++ "`"
  | .int n => "integer `" ++ Text.ofInt n ++ "`"
  | .real shown => "floating point `" ++ shown ++ "`"
  | .str s => "string " ++ Text.doubleQuoted s
  | .arr _ => "sequence"
  | .obj _ | .unkeyed _ _ => "map"
  | .null | .unreadable | .broken => "null"

def backquoted (t : Text) : Text :=
  "`" ++ t ++ "`"

/-- Two names are joined by `or`; a longer list is introduced as such. -/
def oneOf (names : List Text) : Text :=
  match names.map backquoted with
  | [a, b] => a ++ " or " ++ b
  | quoted => "one of " ++ List.intercalate ", " quoted

def Fault.message : Fault → Text
  | .malformed => "malformed JSON"
  | .wrongType found expected => "invalid type: " ++ found.called ++ ", expected " ++ expected
  | .wrongValue found expected => "invalid value: " ++ found.called ++ ", expected " ++ expected
  | .wrongLength length expected =>
    "invalid length " ++ Text.ofNat length ++ ", expected " ++ expected
  | .unknownName name known => "unknown variant " ++ backquoted name ++ ", expected " ++ oneOf known
  | .missingField key => "missing field " ++ backquoted key
  | .repeatedField key => "duplicate field " ++ backquoted key
  | .rejected reason => reason

/-- A value of the wrong type, unless the text is at fault. -/
def Fault.expecting (expected : Text) (found : Json) : Fault :=
  match found with
  | .unreadable | .broken => .malformed
  | v => .wrongType v expected

abbrev Decoder (α : Type) := Json → Except Fault α

def text : Decoder Text
  | .str s => .ok s
  | v => .error (.expecting "a string" v)

def boolean : Decoder Bool
  | .bool b => .ok b
  | v => .error (.expecting "a boolean" v)

/-- A natural number of 32 bits. -/
def count : Decoder Nat
  | .int n => if 0 ≤ n ∧ n < 0x100000000 then .ok n.toNat else .error (.wrongValue (.int n) "u32")
  | v => .error (.expecting "u32" v)

def optional {α : Type} (decode : Decoder α) : Decoder (Option α)
  | .null => .ok none
  | v => (decode v).map some

def allItems {α : Type} (decode : Decoder α) : List Json → Except Fault (List α)
  | [] => .ok []
  | v :: vs =>
    match decode v with
    | .error e => .error e
    | .ok a => (allItems decode vs).map (a :: ·)

def list {α : Type} (decode : Decoder α) : Decoder (List α)
  | .arr items => allItems decode items
  | v => .error (.expecting "a sequence" v)

def allMembers {α : Type} (decode : Decoder α) :
    List (Text × Json) → Except Fault (List (Text × α))
  | [] => .ok []
  | (k, v) :: rest =>
    match decode v with
    | .error e => .error e
    | .ok a => (allMembers decode rest).map ((k, a) :: ·)

def table {α : Type} (decode : Decoder α) : Decoder (List (Text × α))
  | .obj members => allMembers decode members
  | .unkeyed members _ => (allMembers decode members).bind fun _ => .error .malformed
  | v => .error (.expecting "a map" v)

/-- A pair is an array of two values. -/
def pair {α β : Type} (first : Decoder α) (second : Decoder β) : Decoder (α × β)
  | .arr [] => .error (.wrongLength 0 "a tuple of size 2")
  | .arr [a] => do
    let _ ← first a
    .error (.wrongLength 1 "a tuple of size 2")
  | .arr (a :: b :: rest) => do
    let x ← first a
    let y ← second b
    if rest.isEmpty then .ok (x, y)
    else .error (.wrongLength (rest.length + 2) "fewer elements in array")
  | v => .error (.expecting "a tuple of size 2" v)

def named? {α : Type} (known : List (Text × α)) (name : Text) : Option α :=
  (known.find? (·.1 = name)).map (·.2)

/-- A name out of a list, as a string or as an object with the name as its only key and null as its
value. -/
def name {α : Type} (origin : Origin) (lookup : Text → Except Fault α) : Decoder α
  | .str s => lookup s
  | .obj members =>
    match origin, members with
    | .value, [(k, v)] => single k v
    | .value, _ => .error (.wrongValue (.obj members) "map with a single key")
    | .text, (k, v) :: rest => do
      let a ← single k v
      if rest.isEmpty then .ok a else .error .malformed
    | .text, [] => .error .malformed
  | .unkeyed members _ =>
    match members with
    | (k, v) :: _ => (single k v).bind fun _ => .error .malformed
    | [] => .error .malformed
  | v =>
    match origin with
    | .value => .error (.expecting "string or map" v)
    | .text => .error .malformed
where
  single (k : Text) (v : Json) : Except Fault α := do
    let a ← lookup k
    match v with
    | .null => .ok a
    | v => .error (.expecting "unit" v)

/-- A name that must be known; the list of names is shown as given. -/
def known {α : Type} (names : List (Text × α)) (name : Text) : Except Fault α :=
  match named? names name with
  | some a => .ok a
  | none => .error (.unknownName name (names.map (·.1)))

/-- A field of a record as a member of an object: how its value is read and put into the record, and what
is written for it, unless it is left out. -/
structure Member (σ : Type) where
  {α : Type}
  key : Text
  required : Bool := false
  decode : Origin → Decoder α
  write : α → Option Json
  get : σ → α
  set : α → σ → σ

namespace Member

variable {σ α : Type}

def read (f : Member σ) (origin : Origin) (v : Json) (s : σ) : Except Fault σ :=
  (f.decode origin v).map (f.set · s)

def written (f : Member σ) (x : σ) : Option Json :=
  f.write (f.get x)

def must (f : Member σ) : Member σ :=
  { f with required := true }

def value (key : Text) (decode : Origin → Decoder α) (encode : α → Json) (get : σ → α)
    (set : α → σ → σ) : Member σ where
  key
  decode
  write a := some (encode a)
  get
  set

def optional (key : Text) (decode : Origin → Decoder α) (encode : α → Json) (get : σ → Option α)
    (set : Option α → σ → σ) : Member σ where
  key
  decode origin := Json.optional (decode origin)
  write a? := a?.map encode
  get
  set

/-- A field that is left out at its default. -/
def unlessAt [DecidableEq α] (default : α) (key : Text) (decode : Origin → Decoder α)
    (encode : α → Json) (get : σ → α) (set : α → σ → σ) : Member σ where
  key
  decode
  write a := if a = default then none else some (encode a)
  get
  set

def text (key : Text) (get : σ → Text) (set : Text → σ → σ) : Member σ :=
  value key (fun _ => Json.text) .str get set

def optionalText (key : Text) (get : σ → Option Text) (set : Option Text → σ → σ) : Member σ :=
  optional key (fun _ => Json.text) .str get set

def flag (default : Bool) (key : Text) (get : σ → Bool) (set : Bool → σ → σ) : Member σ :=
  unlessAt default key (fun _ => boolean) .bool get set

end Member

section record

variable {σ : Type}

/-- Reads the members of an object; `seen` are the keys read so far. -/
def readMembers (origin : Origin) (table : List (Member σ)) :
    (seen : List Text) → σ → List (Text × Json) → Except Fault (σ × List Text)
  | seen, s, [] => .ok (s, seen)
  | seen, s, (k, v) :: rest =>
    match table.find? (·.key = k) with
    | none => if v.complete then readMembers origin table seen s rest else .error .malformed
    | some f =>
      if k ∈ seen then .error (.repeatedField k)
      else
        match f.read origin v s with
        | .error e => .error e
        | .ok s' => readMembers origin table (k :: seen) s' rest

/-- Reads the items of an array into the fields in order. The result holds the fields and the items
left over; one of the two lists is empty. -/
def readItems (origin : Origin) :
    List (Member σ) → σ → List Json → Except Fault (σ × List (Member σ) × List Json)
  | f :: fs, s, v :: vs =>
    match f.read origin v s with
    | .error e => .error e
    | .ok s' => readItems origin fs s' vs
  | fs, s, vs => .ok (s, fs, vs)

/-- A record by its name and fields, read into the given start. -/
def record (name : Text) (table : List (Member σ)) (start : σ) (origin : Origin) : Decoder σ
  | .obj members =>
    match readMembers origin table [] start members with
    | .error e => .error e
    | .ok (s, seen) =>
      match table.find? (fun f => f.required && !seen.contains f.key) with
      | some f => .error (.missingField f.key)
      | none => .ok s
  | .unkeyed members _ =>
    (readMembers origin table [] start members).bind fun _ => .error .malformed
  | .arr items =>
    match readItems origin table start items with
    | .error e => .error e
    | .ok (s, fs, []) =>
      match fs.findIdx? (·.required) with
      | some i =>
        .error (.wrongLength (items.length + i)
          ("struct " ++ name ++ " with " ++ Text.ofNat table.length ++ " elements"))
      | none => .ok s
    | .ok (_, _, _ :: _) =>
      match origin with
      | .value => .error (.wrongLength items.length "fewer elements in array")
      | .text => .error .malformed
  | v => .error (.expecting ("struct " ++ name) v)

def members (table : List (Member σ)) (x : σ) : List (Text × Json) :=
  table.filterMap fun f => (f.written x).map fun v => (f.key, v)

end record

end FieldMap.Json
