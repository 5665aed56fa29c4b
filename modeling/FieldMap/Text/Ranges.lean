/-!
Sets of characters given as ascending, disjoint ranges of code points. The tables of character
classes are stored this way and searched from the low end.
-/

namespace FieldMap

abbrev Ranges := List (Nat × Nat)

namespace Ranges

/-- The code point lies in a range; the search stops at the first range above it. -/
def has : Ranges → Nat → Bool
  | [], _ => false
  | (lo, hi) :: rest, n => if n < lo then false else n ≤ hi || has rest n

theorem exists_of_has {rs : Ranges} {n : Nat} (h : has rs n = true) :
    ∃ r ∈ rs, r.1 ≤ n ∧ n ≤ r.2 := by
  induction rs with
  | nil => simp [has] at h
  | cons r rs ih =>
    simp only [has] at h
    split at h
    · simp at h
    · next hlo =>
      rcases Bool.or_eq_true _ _ |>.mp h with hhi | hrest
      · exact ⟨r, by simp, by omega, by simpa using hhi⟩
      · obtain ⟨s, hs, hb⟩ := ih hrest
        exact ⟨s, by simp [hs], hb⟩

end Ranges

end FieldMap
