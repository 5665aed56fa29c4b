/-!
Text as a list of characters. Every function of the library that reads or builds text recurses on
this list; string literals are coerced to it.
-/

namespace FieldMap

abbrev Text := List Char

instance : Coe String Text := ⟨String.toList⟩

namespace Text

def dropEndWhile (p : Char → Bool) (t : Text) : Text :=
  (t.reverse.dropWhile p).reverse

def after? : (head t : Text) → Option Text
  | [], t => some t
  | _ :: _, [] => none
  | h :: hs, c :: cs => if h = c then after? hs cs else none

def splitAt? (mark : Text) : Text → Option (Text × Text)
  | [] => if mark = [] then some ([], []) else none
  | c :: cs =>
    match after? mark (c :: cs) with
    | some rest => some ([], rest)
    | none => (splitAt? mark cs).map fun (before, rest) => (c :: before, rest)

def contains (mark : Text) : Text → Bool
  | [] => mark = []
  | c :: cs => (after? mark (c :: cs)).isSome || contains mark cs

def endsWith (tail t : Text) : Bool :=
  tail.isSuffixOf t

/-- Lower case for the letters A to Z; all other characters stay. -/
def lowerAscii (t : Text) : Text :=
  t.map Char.toLower

def ofNat (n : Nat) : Text :=
  Nat.toDigits 10 n

def ofInt : Int → Text
  | .ofNat n => ofNat n
  | .negSucc n => '-' :: ofNat (n + 1)

def quoted (t : Text) : Text :=
  "'" ++ t ++ "'"

theorem after?_append (head t : Text) : after? head (head ++ t) = some t := by
  induction head with
  | nil => rfl
  | cons c cs ih => simp [after?, ih]

theorem eq_append_of_after? {head t rest : Text} (h : after? head t = some rest) :
    t = head ++ rest := by
  induction head generalizing t with
  | nil => simpa [after?] using h
  | cons c cs ih =>
    cases t with
    | nil => simp [after?] at h
    | cons d ds =>
      by_cases e : c = d
      · subst e
        simp only [after?, if_true] at h
        simp [ih h]
      · simp [after?, e] at h

theorem eq_of_splitAt? {mark t before rest : Text} (h : splitAt? mark t = some (before, rest)) :
    t = before ++ mark ++ rest := by
  induction t generalizing before with
  | nil =>
    by_cases e : mark = []
    · simp_all [splitAt?]
    · simp [splitAt?, e] at h
  | cons c cs ih =>
    simp only [splitAt?] at h
    split at h
    · next r hr =>
      simp only [Option.some.injEq, Prod.mk.injEq] at h
      obtain ⟨rfl, rfl⟩ := h
      simpa using eq_append_of_after? hr
    · obtain ⟨⟨b, r⟩, hbr, heq⟩ := Option.map_eq_some_iff.1 h
      simp only [Prod.mk.injEq] at heq
      obtain ⟨rfl, rfl⟩ := heq
      simp [ih hbr]

theorem length_splitAt?_lt {mark t before rest : Text} (hm : mark ≠ [])
    (h : splitAt? mark t = some (before, rest)) : rest.length < t.length := by
  have hl : 0 < mark.length := List.length_pos_iff.2 hm
  have he := congrArg List.length (eq_of_splitAt? h)
  simp only [List.length_append] at he
  omega

theorem length_dropWhile_le (p : Char → Bool) (t : Text) : (t.dropWhile p).length ≤ t.length := by
  induction t with
  | nil => simp
  | cons c cs ih =>
    rw [List.dropWhile_cons]
    split
    · simp only [List.length_cons]; omega
    · simp

end Text

end FieldMap
