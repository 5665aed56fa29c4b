import Mathlib.Data.List.Forall2
import FieldMap.Path.Relative
import FieldMap.Proofs.BracketDepth

/-!
Where the context of a loop occurs in a path. A window is a run of steps that the context matches step
by step; a path seen from a context is what follows the last window, or the first steps if the
context starts at the root. A path without predicates has the steps between its slashes.
-/

namespace FieldMap.Path

/-- The context matches the steps of a path from an offset on. -/
def WindowAt (context steps : List Text) (offset : Nat) : Prop :=
  List.Forall₂ (fun c s => matchesStep c s = true) context
    ((steps.drop offset).take context.length)

instance (context steps : List Text) (offset : Nat) : Decidable (WindowAt context steps offset) :=
  inferInstanceAs (Decidable (List.Forall₂ _ _ _))

section Windows

variable {context steps : List Text}

theorem matchesStep_self (s : Text) : matchesStep s s = true := by
  unfold matchesStep
  split
  · next wild => simp [wild]
  · simp

theorem windowAt_zero_of_isPrefix (h : context <+: steps) : WindowAt context steps 0 := by
  rw [WindowAt, List.drop_zero, ← List.prefix_iff_eq_take.mp h, List.forall₂_same]
  exact fun s _ => matchesStep_self s

theorem afterContext?_eq_some_iff {rest : List Text} :
    afterContext? context steps = some rest ↔
      WindowAt context steps 0 ∧ rest = steps.drop context.length := by
  unfold WindowAt
  induction context generalizing steps with
  | nil =>
    rw [afterContext?, Option.some_inj, eq_comm]
    exact ⟨fun same => ⟨List.Forall₂.nil, same⟩, fun both => both.2⟩
  | cons c cs ih =>
    cases steps with
    | nil => simp [afterContext?]
    | cons s ss =>
      by_cases first : matchesStep c s = true
      · simpa [afterContext?, first] using @ih ss
      · simp [afterContext?, first]

theorem afterLastContext?_eq_none (h : ∀ offset, ¬ WindowAt context steps offset) :
    afterLastContext? context steps = none := by
  have start (ss : List Text) (away : ¬ WindowAt context ss 0) : afterContext? context ss = none := by
    rw [Option.eq_none_iff_forall_ne_some]
    intro rest found
    exact away (afterContext?_eq_some_iff.mp found).1
  induction steps with
  | nil => exact start [] (h 0)
  | cons s ss ih =>
    have later : afterLastContext? context ss = none := ih fun offset => h (offset + 1)
    rw [afterLastContext?, later]
    exact start (s :: ss) (h 0)

theorem afterLastContext?_eq_some {offset : Nat} (here : WindowAt context steps offset)
    (later : ∀ other, offset < other → ¬ WindowAt context steps other) :
    afterLastContext? context steps = some (steps.drop (offset + context.length)) := by
  induction steps generalizing offset with
  | nil =>
    have first : WindowAt context [] 0 := by simpa [WindowAt] using here
    rw [afterLastContext?, afterContext?_eq_some_iff]
    exact ⟨first, by simp⟩
  | cons s ss ih =>
    cases offset with
    | zero =>
      have none : afterLastContext? context ss = none :=
        afterLastContext?_eq_none fun other => later (other + 1) (Nat.succ_pos other)
      rw [afterLastContext?, none, Nat.zero_add]
      exact afterContext?_eq_some_iff.mpr ⟨here, rfl⟩
    | succ offset =>
      have inner := ih here fun other after => later (other + 1) (Nat.succ_lt_succ after)
      have shifted : offset + 1 + context.length = offset + context.length + 1 := by omega
      rw [afterLastContext?, inner, shifted]
      rfl

theorem exists_windowAt_of_afterContext? {rest : List Text}
    (h : afterContext? context steps = some rest) :
    ∃ offset, WindowAt context steps offset ∧ rest = steps.drop (offset + context.length) := by
  obtain ⟨here, e⟩ := afterContext?_eq_some_iff.mp h
  exact ⟨0, here, by rw [e, Nat.zero_add]⟩

theorem exists_windowAt_of_afterLastContext? {rest : List Text}
    (h : afterLastContext? context steps = some rest) :
    ∃ offset, WindowAt context steps offset ∧ rest = steps.drop (offset + context.length) := by
  induction steps with
  | nil => exact exists_windowAt_of_afterContext? h
  | cons s ss ih =>
    rw [afterLastContext?] at h
    split at h
    · next found =>
      cases h
      obtain ⟨offset, here, e⟩ := ih found
      refine ⟨offset + 1, here, ?_⟩
      rw [e, Nat.add_right_comm, List.drop_succ_cons]
    · exact exists_windowAt_of_afterContext? h

theorem WindowAt.le_length {offset : Nat} (h : WindowAt context steps offset) (ne : context ≠ []) :
    offset + context.length ≤ steps.length := by
  have lengths := h.length_eq
  have some_step := List.length_pos_iff.mpr ne
  simp only [List.length_take, List.length_drop] at lengths
  omega

theorem WindowAt.take {offset : Nat} (h : WindowAt context steps offset) :
    WindowAt context (steps.take (offset + context.length)) offset := by
  rwa [WindowAt, List.drop_take, Nat.add_sub_cancel_left, List.take_take, Nat.min_self]

end Windows

/-- The text of the steps that are left of a path; nothing is left at the context node itself. -/
def remainder (rest : List Text) : Text :=
  if rest = [] then ['.'] else List.intercalate "/" rest

theorem relativeTo_eq {path context : Text} (h : steps (Text.trim context) ≠ []) :
    relativeTo path context =
      (if isAnchored (Text.trim context) then
        afterContext? (steps (Text.trim context)) (steps path)
      else afterLastContext? (steps (Text.trim context)) (steps path)).map remainder := by
  obtain ⟨c, cs, e⟩ := List.exists_cons_of_ne_nil h
  simp only [relativeTo, e]
  rfl

theorem relativeTo_self {t : Text} (h : steps t ≠ []) : relativeTo t t = some ['.'] := by
  have here : WindowAt (steps t) (steps t) 0 := windowAt_zero_of_isPrefix List.prefix_rfl
  have later : ∀ offset, 0 < offset → ¬ WindowAt (steps t) (steps t) offset := by
    intro offset after window
    have bound := window.le_length h
    omega
  rw [relativeTo_eq (by rwa [steps_trim]), steps_trim, afterLastContext?_eq_some here later,
    afterContext?_eq_some_iff.mpr ⟨here, rfl⟩, Nat.zero_add, ite_self, List.drop_length]
  rfl

theorem exists_window_of_relativeTo {path context r : Text} (h : relativeTo path context = some r)
    (other : r ≠ ['.']) : ∃ offset, WindowAt (steps context) (steps path) offset ∧
      steps context ≠ [] ∧ (steps path).drop (offset + (steps context).length) ≠ [] ∧
      r = List.intercalate "/" ((steps path).drop (offset + (steps context).length)) := by
  have same := steps_trim context
  have ne : steps (Text.trim context) ≠ [] := by
    intro none
    rw [relativeTo] at h
    simp only [none] at h
    cases h
  rw [relativeTo_eq ne, same, Option.map_eq_some_iff] at h
  obtain ⟨rest, found, e⟩ := h
  have window : ∃ offset, WindowAt (steps context) (steps path) offset ∧
      rest = (steps path).drop (offset + (steps context).length) := by
    split at found
    · exact exists_windowAt_of_afterContext? found
    · exact exists_windowAt_of_afterLastContext? found
  obtain ⟨offset, here, rfl⟩ := window
  have some_left : (steps path).drop (offset + (steps context).length) ≠ [] := by
    intro none
    rw [none] at e
    exact other e.symm
  rw [remainder, if_neg some_left] at e
  exact ⟨offset, here, same ▸ ne, some_left, e.symm⟩

theorem pieces?_of_not_mem {t : Text} (h : '[' ∉ t) : pieces? t = some (List.splitOn '/' t) := by
  induction t with
  | nil =>
    rw [pieces?]
    rfl
  | cons c cs ih =>
    rw [List.mem_cons, not_or] at h
    have inner := ih h.2
    rw [pieces?, List.splitOn_cons_eq_if_modifyHead, inner, if_neg (Ne.symm h.1)]
    by_cases slash : c = '/'
    · rw [if_pos slash, if_pos (beq_iff_eq.mpr slash)]
      rfl
    · rw [if_neg slash, if_neg (mt beq_iff_eq.mp slash), Option.map_some]
      obtain ⟨piece, pieces, split⟩ := List.exists_cons_of_ne_nil (List.splitOn_ne_nil '/' cs)
      rw [split]
      rfl

structure IsPlainStep (s : Text) : Prop where
  ne_nil : s ≠ []
  no_slash : '/' ∉ s
  no_bracket : '[' ∉ s

section PlainSteps

variable {names : List Text} (plain : ∀ s ∈ names, IsPlainStep s)

include plain

theorem dropWhile_slashes_intercalate (count : Nat) :
    (List.replicate count '/' ++ List.intercalate "/" names).dropWhile (· = '/') =
      List.intercalate "/" names := by
  have slashes : ∀ c ∈ List.replicate count '/', decide (c = '/') = true := by
    intro c hc
    exact decide_eq_true (List.eq_of_mem_replicate hc)
  rw [List.dropWhile_append_of_pos slashes]
  refine Text.dropWhile_eq_self fun c hc => ?_
  cases names with
  | nil => simp at hc
  | cons s ss =>
    have first := plain s List.mem_cons_self
    rw [Text.head?_intercalate first.ne_nil] at hc
    have other : c ≠ '/' := by
      rintro rfl
      exact first.no_slash (List.mem_of_mem_head? hc)
    exact decide_eq_false other

theorem steps_slashes_intercalate (count : Nat) (ne : names ≠ [])
    (trimmed : Text.trim (List.replicate count '/' ++ List.intercalate "/" names) =
      List.replicate count '/' ++ List.intercalate "/" names) :
    steps (List.replicate count '/' ++ List.intercalate "/" names) = names := by
  have text : body (List.replicate count '/' ++ List.intercalate "/" names) =
      List.intercalate "/" names := by
    rw [body, trimmed, dropWhile_slashes_intercalate plain]
  have free : '[' ∉ List.intercalate "/" names := by
    intro inside
    rcases Text.mem_of_mem_intercalate inside with slash | ⟨s, hs, bracket⟩
    · exact absurd slash (by decide)
    · exact (plain s hs).no_bracket bracket
  have split : List.splitOn '/' (List.intercalate "/" names) = names :=
    List.splitOn_intercalate _ (fun s hs => (plain s hs).no_slash) ne
  simp only [steps, text, pieces?_of_not_mem free, Option.getD_some, split]
  rw [List.filter_eq_self]
  intro s hs
  exact decide_eq_true (plain s hs).ne_nil

end PlainSteps

end FieldMap.Path
