/-!
Trees and lists of trees. A function on trees goes with one on the lists of their children, which
collects what the first gives for each of them. The second is then a `flatMap`, a `map` or a bounded
quantifier over the first, and divides along `++`.
-/

namespace FieldMap.Trees

variable {α β : Type}

section Collected

variable {all : List α → List β} {f : α → List β} (nil : all [] = [])
  (cons : ∀ a as, all (a :: as) = f a ++ all as)

include nil cons

theorem eq_flatMap (as : List α) : all as = as.flatMap f := by
  induction as with
  | nil => exact nil
  | cons a as ih => rw [cons, ih, List.flatMap_cons]

theorem append (as bs : List α) : all (as ++ bs) = all as ++ all bs := by
  simp only [eq_flatMap nil cons, List.flatMap_append]

theorem flatten (parts : List (List α)) : all parts.flatten = (parts.map all).flatten := by
  induction parts with
  | nil => exact nil
  | cons part parts ih =>
    rw [List.flatten_cons, append nil cons, ih, List.map_cons, List.flatten_cons]

end Collected

theorem eq_map {all : List α → List β} {f : α → β} (nil : all [] = [])
    (cons : ∀ a as, all (a :: as) = f a :: all as) (as : List α) : all as = as.map f := by
  induction as with
  | nil => exact nil
  | cons a as ih => rw [cons, ih, List.map_cons]

section Shared

variable {All : List α → Prop} {P : α → Prop} (nil : All [])
  (cons : ∀ a as, All (a :: as) ↔ P a ∧ All as)

include nil cons

theorem iff_forall (as : List α) : All as ↔ ∀ a ∈ as, P a := by
  induction as with
  | nil => exact ⟨fun _ => List.forall_mem_nil P, fun _ => nil⟩
  | cons a as ih => rw [cons, ih, List.forall_mem_cons]

theorem append_iff (as bs : List α) : All (as ++ bs) ↔ All as ∧ All bs := by
  simp only [iff_forall nil cons, List.forall_mem_append]

end Shared

end FieldMap.Trees

namespace FieldMap

inductive LabelledTree (α : Type) where
  | node (label : α) (children : List (LabelledTree α))

namespace LabelledTree

variable {α : Type} [DecidableEq α]

mutual

def decEq : (s t : LabelledTree α) → Decidable (s = t)
  | .node a ss, .node b ts =>
    have := decEqAll ss ts
    decidable_of_iff (a = b ∧ ss = ts) (by simp)

def decEqAll : (ss ts : List (LabelledTree α)) → Decidable (ss = ts)
  | [], [] => isTrue rfl
  | [], _ :: _ => isFalse (by simp)
  | _ :: _, [] => isFalse (by simp)
  | s :: ss, t :: ts =>
    have := decEq s t
    have := decEqAll ss ts
    decidable_of_iff (s = t ∧ ss = ts) (by simp)

end

instance : DecidableEq (LabelledTree α) := decEq

end LabelledTree

end FieldMap
