import FieldMap.Json.Token

/-!
Reading JSON text. The reader keeps the containers that are open around the current place. When the
text breaks off they are closed around a `broken` value, so that the part read so far is kept in
its place.
-/

namespace FieldMap.Json

def ofString : Option Text → Json
  | some s => .str s
  | none => .unreadable

/-- The members up to the first key that cannot be read, and the values from there on. -/
def keyed : List (Option Text × Json) → List (Text × Json) × List Json
  | (some key, v) :: rest =>
    let (members, values) := keyed rest
    ((key, v) :: members, values)
  | rest => ([], rest.map (·.2))

def ofMembers (members : List (Option Text × Json)) : Json :=
  match keyed members with
  | (members, []) => .obj members
  | (members, rest) => .unkeyed members rest

/-- An open container: what it holds so far, latest first. A key that cannot be read is missing. -/
inductive Frame where
  | items (done : List Json)
  | members (done : List (Option Text × Json)) (key : Option Text)

def Frame.close (v : Json) : Frame → Json
  | .items done => .arr (v :: done).reverse
  | .members done key => ofMembers ((key, v) :: done).reverse

/-- The frame closed after one more value with a broken place after it. -/
def Frame.breakOff (v : Json) : Frame → Json
  | .items done => .arr (.broken :: v :: done).reverse
  | .members done key => ofMembers ((none, .broken) :: (key, v) :: done).reverse

def unwind (v : Json) (frames : List Frame) : Json :=
  frames.foldl (fun v f => f.close v) v

mutual

/-- Reads a value inside the frames. The second result says whether the text was read to its end. -/
def readValue (frames : List Frame) : List Token → Json × Bool
  | .scalar v :: ts => resume v frames ts
  | .string s :: ts => resume (ofString s) frames ts
  | .openArray :: .closeArray :: ts => resume (.arr []) frames ts
  | .openArray :: ts => readValue (.items [] :: frames) ts
  | .openObject :: .closeObject :: ts => resume (.obj []) frames ts
  | .openObject :: .string key :: .colon :: ts => readValue (.members [] key :: frames) ts
  | .openObject :: .string key :: _ => (unwind (ofMembers [(key, .broken)]) frames, false)
  | .openObject :: _ => (unwind (.unkeyed [] [.broken]) frames, false)
  | _ => (unwind .broken frames, false)
termination_by ts => ts.length

def resume (v : Json) : List Frame → List Token → Json × Bool
  | [], ts => (v, ts.isEmpty)
  | .items done :: frames, .comma :: ts => readValue (.items (v :: done) :: frames) ts
  | .items done :: frames, .closeArray :: ts => resume ((Frame.items done).close v) frames ts
  | .members done key :: frames, .comma :: .string next :: .colon :: ts =>
    readValue (.members ((key, v) :: done) next :: frames) ts
  | .members done key :: frames, .comma :: .string next :: _ =>
    (unwind ((Frame.members ((key, v) :: done) next).close .broken) frames, false)
  | .members done key :: frames, .closeObject :: ts =>
    resume ((Frame.members done key).close v) frames ts
  | frame :: frames, _ => (unwind (frame.breakOff v) frames, false)
termination_by _ ts => ts.length

end

/-- The value of a text, and whether the text holds nothing after it. -/
def read (t : Text) : Json × Bool :=
  readValue [] (tokens t)

end FieldMap.Json
