import FieldMap.Text.Basic

/-!
Lists with further elements put in. The relation says which elements may be put in and how many there
are; a function that does not see such elements gives the same result on both lists.
-/

namespace FieldMap

/-- The second list is the first with `count` further elements, each with a property, put in
anywhere. -/
inductive Inserted {α : Type} (p : α → Prop) : (count : Nat) → (before after : List α) → Prop
  | nil : Inserted p 0 [] []
  | keep {count : Nat} {before after : List α} (a : α) :
      Inserted p count before after → Inserted p count (a :: before) (a :: after)
  | put {count : Nat} {before after : List α} {a : α} :
      p a → Inserted p count before after → Inserted p (count + 1) before (a :: after)

namespace Inserted

variable {α β : Type} {p : α → Prop} {count other : Nat} {before after : List α}

theorem refl (as : List α) : Inserted p 0 as as := by
  induction as with
  | nil => exact nil
  | cons a as ih => exact keep a ih

theorem append {before' after' : List α} (first : Inserted p count before after)
    (second : Inserted p other before' after') :
    Inserted p (count + other) (before ++ before') (after ++ after') := by
  induction first with
  | nil => simpa using second
  | keep a _ ih => exact keep a ih
  | put ha _ ih =>
    rw [Nat.add_right_comm]
    exact put ha ih

theorem mono {q : α → Prop} (h : Inserted p count before after) (all : ∀ a, p a → q a) :
    Inserted q count before after := by
  induction h with
  | nil => exact nil
  | keep a _ ih => exact keep a ih
  | put ha _ ih => exact put (all _ ha) ih

theorem countP {q : α → Bool} (h : Inserted p count before after) (all : ∀ a, p a → q a = true) :
    after.countP q = before.countP q + count := by
  induction h with
  | nil => rfl
  | keep a _ ih =>
    rw [List.countP_cons, List.countP_cons, ih]
    omega
  | put ha _ ih =>
    rw [List.countP_cons_of_pos (all _ ha), ih]
    omega

end Inserted

end FieldMap
