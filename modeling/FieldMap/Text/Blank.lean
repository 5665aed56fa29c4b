import FieldMap.Text.Basic
import FieldMap.Text.Ranges

/-!
White space and trimming. A character is blank if it has the Unicode property White_Space; the
zero width space and the byte order mark do not have it.
-/

namespace FieldMap.Text

def blankRanges : Ranges :=
  [(0x9, 0xD), (0x20, 0x20), (0x85, 0x85), (0xA0, 0xA0), (0x1680, 0x1680), (0x2000, 0x200A),
    (0x2028, 0x2029), (0x202F, 0x202F), (0x205F, 0x205F), (0x3000, 0x3000)]

def isBlank (c : Char) : Bool :=
  blankRanges.has c.toNat

def trim (t : Text) : Text :=
  dropEndWhile isBlank (t.dropWhile isBlank)

def allBlank (t : Text) : Bool :=
  t.all isBlank

def nonBlank? (t : Text) : Option Text :=
  let s := trim t
  if s = [] then none else some s

theorem trim_eq_nil_iff (t : Text) : trim t = [] ↔ allBlank t = true := by
  have h : ∀ l : Text, l.dropWhile isBlank = [] ↔ l.all isBlank = true := by
    intro l
    induction l with
    | nil => simp
    | cons c cs ih =>
      by_cases hc : isBlank c = true
      · simp [hc, ih]
      · simp [hc]
  have key : ∀ l : Text, (∀ c r, l = c :: r → isBlank c = false) →
      (dropEndWhile isBlank l = [] ↔ l = []) := by
    intro l hl
    constructor
    · intro he
      simp only [dropEndWhile, List.reverse_eq_nil_iff, h] at he
      cases l with
      | nil => rfl
      | cons c r =>
        have := hl c r rfl
        simp [this] at he
    · rintro rfl
      rfl
  rw [trim, key, h]
  · rfl
  · intro c r hr
    induction t with
    | nil => simp at hr
    | cons d ds ih =>
      rw [List.dropWhile_cons] at hr
      split at hr
      · exact ih hr
      · next hd =>
        cases hr
        simpa using hd

end FieldMap.Text
