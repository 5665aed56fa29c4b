import FieldMap.Text.Basic

/-!
JSON values. Members of an object keep their order and may repeat a key. A value read from a text
that stops being JSON ends in a `broken` place; everything before that place is still there, so a
reader of the value meets its problems in the order of the text.
-/

namespace FieldMap

inductive Json where
  | null
  | bool (b : Bool)
  | int (n : Int)
  /-- A number with fraction or exponent, or too large for an integer, in its shortest text. -/
  | real (shown : Text)
  | str (s : Text)
  | arr (items : List Json)
  | obj (members : List (Text × Json))
  /-- An object with a key that cannot be read: the members before that key, and the values from
  there on. -/
  | unkeyed (members : List (Text × Json)) (rest : List Json)
  /-- A well-formed number or string that stands for no value: out of range, or with half of a
  surrogate pair. -/
  | unreadable
  /-- The place where a text stops being JSON. -/
  | broken

namespace Json

def insertMember (key : Text) (value : Json) : List (Text × Json) → List (Text × Json)
  | [] => [(key, value)]
  | (k, v) :: rest =>
    if key < k then (key, value) :: (k, v) :: rest
    else if key = k then (key, value) :: rest
    else (k, v) :: insertMember key value rest

mutual

/-- The value with the members of each object in ascending order of their keys. Of several members
with one key the last stays. -/
def sorted : Json → Json
  | .arr items => .arr (sortedItems items)
  | .obj members => .obj (sortedMembers members)
  | v => v

def sortedItems : List Json → List Json
  | [] => []
  | v :: vs => v.sorted :: sortedItems vs

/-- The members are inserted from the last to the first, each unless its key is there already. -/
def sortedMembers : List (Text × Json) → List (Text × Json)
  | [] => []
  | (k, v) :: rest =>
    let done := sortedMembers rest
    if done.any (·.1 = k) then done else insertMember k v.sorted done

end

mutual

def complete : Json → Bool
  | .broken => false
  | .arr items => completeItems items
  | .obj members => completeMembers members
  | .unkeyed members rest => completeMembers members && completeItems rest
  | _ => true

def completeItems : List Json → Bool
  | [] => true
  | v :: vs => v.complete && completeItems vs

def completeMembers : List (Text × Json) → Bool
  | [] => true
  | (_, v) :: rest => v.complete && completeMembers rest

end

def member? (key : Text) : Json → Option Json
  | .obj members => (members.find? (·.1 = key)).map (·.2)
  | _ => none

end Json

end FieldMap
