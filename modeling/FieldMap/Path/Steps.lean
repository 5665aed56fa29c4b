import FieldMap.Text.Blank

/-!
Steps of a location path. A path is split at the slashes outside predicates; a predicate is a
bracketed part, which may hold further predicates. A path with a bracket that is never closed is
split at every slash. Empty steps, such as those between doubled slashes, are dropped.
-/

namespace FieldMap.Path

/-- Reads on to the `]` that closes a bracket opened just before the text, closing inner brackets
first. The result is the part read, with its `]`, and the shorter text after it. -/
def closing? : (t : Text) → Option {p : Text × Text // p.2.length < t.length}
  | [] => none
  | c :: cs =>
    if c = ']' then some ⟨([c], cs), Nat.lt_succ_self _⟩
    else if c = '[' then
      match closing? cs with
      | none => none
      | some ⟨(inner, rest), h⟩ =>
        have _ : rest.length < cs.length := h
        match closing? rest with
        | none => none
        | some ⟨(outer, last), h'⟩ =>
          some ⟨(c :: (inner ++ outer), last), Nat.lt_succ_of_lt (Nat.lt_trans h' h)⟩
    else
      match closing? cs with
      | none => none
      | some ⟨(part, rest), h⟩ =>
        some ⟨(c :: part, rest), Nat.lt_succ_of_lt h⟩
termination_by t => t.length

def onFirst (part : Text) : List Text → List Text
  | [] => [part]
  | piece :: pieces => (part ++ piece) :: pieces

/-- The pieces between the slashes outside predicates, if every opened predicate is closed. A `]`
that closes nothing is plain text. -/
def pieces? : Text → Option (List Text)
  | [] => some [[]]
  | c :: cs =>
    if c = '/' then (pieces? cs).map ([] :: ·)
    else if c = '[' then
      match closing? cs with
      | none => none
      | some ⟨(part, rest), h⟩ =>
        have _ : rest.length < cs.length := h
        (pieces? rest).map (onFirst (c :: part))
    else (pieces? cs).map (onFirst [c])
termination_by t => t.length

def body (path : Text) : Text :=
  (Text.trim path).dropWhile (· = '/')

/-- The non-empty steps of a path. -/
def steps (path : Text) : List Text :=
  let text := body path
  ((pieces? text).getD (List.splitOn '/' text)).filter (· ≠ [])

def stepName (step : Text) : Text :=
  step.takeWhile (· ≠ '[')

def balancedFrom : (depth : Nat) → Text → Bool
  | depth, [] => depth == 0
  | depth, c :: cs =>
    if c = '[' then balancedFrom (depth + 1) cs
    else if c = ']' then
      match depth with
      | 0 => false
      | d + 1 => balancedFrom d cs
    else balancedFrom depth cs

def balanced (path : Text) : Bool :=
  balancedFrom 0 path

end FieldMap.Path
