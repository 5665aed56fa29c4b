import FieldMap.Markup.Tree
import FieldMap.Proofs.Trees

/-!
Markup without its comments. Comments are lines of their own, so leaving out the lines of the
comments is the same as laying out the markup without them.
-/

namespace FieldMap.Markup

def Step.isComment : Step → Bool
  | .comment _ => true
  | _ => false

mutual

def bare : Markup → List Markup
  | .line element => [.line element]
  | .block tag body => [.block tag (allBare body)]
  | .comment _ => []

def allBare : List Markup → List Markup
  | [] => []
  | m :: ms => m.bare ++ allBare ms

end

theorem allSteps_append (a b : List Markup) : allSteps (a ++ b) = allSteps a ++ allSteps b :=
  Trees.append rfl (fun _ _ => rfl) a b

theorem allSteps_flatten (parts : List (List Markup)) :
    allSteps parts.flatten = (parts.map allSteps).flatten :=
  Trees.flatten rfl (fun _ _ => rfl) parts

theorem allBare_append (a b : List Markup) : allBare (a ++ b) = allBare a ++ allBare b :=
  Trees.append rfl (fun _ _ => rfl) a b

theorem allBare_singleton (m : Markup) : allBare [m] = m.bare :=
  List.append_nil _

theorem allBare_flatten {parts : List (List Markup)} (h : ∀ part ∈ parts, allBare part = part) :
    allBare parts.flatten = parts.flatten := by
  have collected : allBare parts.flatten = (parts.map allBare).flatten :=
    Trees.flatten rfl (fun _ _ => rfl) parts
  rw [collected, List.map_congr_left h, List.map_id']

mutual

theorem filter_steps (m : Markup) :
    m.steps.filter (fun step => !step.isComment) = allSteps m.bare := by
  cases m with
  | line element => rfl
  | block tag body =>
    have inner := filter_allSteps body
    rw [steps, List.filter_cons_of_pos rfl, List.filter_append, inner, bare, allSteps, steps]
    simp [Step.isComment, allSteps]
  | comment text => rfl

theorem filter_allSteps (ms : List Markup) :
    (allSteps ms).filter (fun step => !step.isComment) = allSteps (allBare ms) := by
  cases ms with
  | nil => rfl
  | cons m ms =>
    rw [allSteps, List.filter_append, filter_steps m, filter_allSteps ms, allBare, allSteps_append]

end

theorem filter_isComment_eq_nil {ms : List Markup} (h : allBare ms = ms) :
    (allSteps ms).filter Step.isComment = [] := by
  rw [List.filter_eq_nil_iff]
  intro step member
  rw [← h, ← filter_allSteps] at member
  simpa using (List.mem_filter.mp member).2

end FieldMap.Markup
