import Mathlib.Order.Bounds.Basic
import FieldMap.Proofs.ContextWindows
import FieldMap.Proofs.DepthScanner

/-!
The offset at which a path is seen from a context. An offset is admissible if the steps there have
the names of the context and, for a context that starts at the root, if it is the first. A path is
seen from the greatest admissible offset. Searching for it by offsets, from the last to the first,
cuts no window and no rest out of the steps that does not lie within them.
-/

namespace FieldMap.Path

/-- A step of the context stands for a step of the path: both have one name, or it is a wildcard and
the step no attribute. Predicates are left aside. -/
def StandsFor (c s : Text) : Prop :=
  stepName c = stepName s ∨ stepName c = ['*'] ∧ s.head? ≠ some '@'

/-- The context may be taken to stand for the steps of the path from an offset on. -/
structure Admissible (path context : Text) (offset : Nat) : Prop where
  within : offset + (steps context).length ≤ (steps path).length
  names : ∀ j (_ : j < (steps context).length),
    StandsFor (steps context)[j] (steps path)[offset + j]
  start : (Text.trim context).takeWhile (· = '/') = ['/'] → offset = 0

def slice? {α : Type} (l : List α) (first last : Nat) : Option (List α) :=
  if first ≤ last ∧ last ≤ l.length then some ((l.drop first).take (last - first)) else none

def windowMatches (context window : List Text) : Bool :=
  (context.zip window).all fun x => matchesStep x.1 x.2

/-- The last window that begins at an offset or before it. Nothing results if a window on the way
does not lie within the steps. -/
def searchDown? (context path : List Text) : (offset : Nat) → Option (Option Nat)
  | 0 => do
    let window ← slice? path 0 context.length
    return if windowMatches context window then some 0 else none
  | offset + 1 => do
    let window ← slice? path (offset + 1) (offset + 1 + context.length)
    if windowMatches context window then return some (offset + 1)
    else searchDown? context path offset

/-- Where the search begins: at the root, or where the context would end with the path. -/
def lastOffset (anchored : Bool) (context path : List Text) : Nat :=
  if anchored then 0 else path.length - context.length

/-- The view of a path by offsets; nothing results if a slice does not lie within the steps. -/
def viewBySlices? (path context : Text) : Option (Option Text) :=
  let trimmed := Text.trim context
  let wanted := steps trimmed
  let given := steps path
  if wanted = [] ∨ given.length < wanted.length then some none
  else do
    match ← searchDown? wanted given (lastOffset (isAnchored trimmed) wanted given) with
    | none => return none
    | some offset =>
      if offset + wanted.length = given.length then return some ['.']
      else
        let rest ← slice? given (offset + wanted.length) given.length
        return some (List.intercalate "/" rest)

theorem head?_stepName {s : Text} : (stepName s).head? = some '@' ↔ s.head? = some '@' := by
  cases s with
  | nil => rfl
  | cons c cs =>
    by_cases opens : c = '['
    · simp [stepName, opens]
    · simp [stepName, opens]

theorem matchesStep_iff {c s : Text} : matchesStep c s = true ↔ StandsFor c s := by
  unfold matchesStep StandsFor
  split
  · next wild =>
    have other : stepName c = stepName s → s.head? ≠ some '@' := by
      intro same start
      rw [← head?_stepName, ← same, wild] at start
      cases start
    rw [decide_eq_true_iff, ne_eq, head?_stepName]
    exact ⟨fun plain => Or.inr ⟨wild, plain⟩, fun either => either.elim other And.right⟩
  · next plain =>
    rw [decide_eq_true_iff]
    exact ⟨Or.inl, fun either => either.resolve_right fun wild => plain wild.1⟩

theorem isAnchored_iff {t : Text} : isAnchored t = true ↔ t.takeWhile (· = '/') = ['/'] := by
  unfold isAnchored
  split
  · next rest => simp
  · next rest single =>
    have other : rest.head? ≠ some '/' := by
      intro slash
      obtain ⟨later, rfl⟩ := List.head?_eq_some_iff.mp slash
      exact single later rfl
    refine iff_of_true rfl ?_
    rw [List.takeWhile_cons_of_pos (by simp)]
    cases rest with
    | nil => rfl
    | cons c cs => simpa using other
  · next start =>
    refine iff_of_false Bool.false_ne_true fun single => ?_
    cases t with
    | nil => cases single
    | cons c cs =>
      by_cases slash : c = '/'
      · exact start cs (by rw [slash])
      · simp [slash] at single

section Offsets

variable {context path : List Text} {offset : Nat}
  (within : offset + context.length ≤ path.length)

include within

theorem length_window :
    ((path.drop offset).take context.length).length = context.length := by
  rw [List.length_take, List.length_drop]
  omega

theorem windowAt_iff :
    WindowAt context path offset ↔
      ∀ j (_ : j < context.length), StandsFor context[j] path[offset + j] := by
  rw [WindowAt, List.forall₂_iff_get]
  constructor
  · rintro ⟨-, each⟩ j hj
    simpa [matchesStep_iff] using each j hj (by rwa [length_window within])
  · intro each
    refine ⟨(length_window within).symm, fun j hj _ => ?_⟩
    simpa [matchesStep_iff] using each j hj

theorem slice?_window :
    slice? path offset (offset + context.length) =
      some ((path.drop offset).take context.length) := by
  rw [slice?, if_pos ⟨Nat.le_add_right _ _, within⟩, Nat.add_sub_cancel_left]

theorem windowMatches_iff :
    windowMatches context ((path.drop offset).take context.length) = true ↔
      WindowAt context path offset := by
  rw [WindowAt, List.forall₂_iff_zip, windowMatches, List.all_eq_true]
  constructor
  · intro each
    exact ⟨(length_window within).symm, fun member => each _ member⟩
  · rintro ⟨-, each⟩ x member
    exact each member

def IsLastOf (offsets : Set Nat) : Option Nat → Prop
  | none => ∀ k, k ∉ offsets
  | some k => IsGreatest offsets k

theorem exists_searchDown? :
    ∃ found, searchDown? context path offset = some found ∧
      IsLastOf {k | k ≤ offset ∧ WindowAt context path k} found := by
  have cut := slice?_window within
  have here := windowMatches_iff within
  -- Each step down moves the window towards the start, so the bound on its end is kept.
  induction offset with
  | zero =>
    rw [Nat.zero_add] at cut
    by_cases window : WindowAt context path 0
    · refine ⟨some 0, ?_, ⟨Nat.le_refl 0, window⟩, fun k hk => hk.1⟩
      rw [searchDown?, cut]
      exact congrArg some (if_pos (here.mpr window))
    · refine ⟨none, ?_, fun k hk => ?_⟩
      · rw [searchDown?, cut]
        exact congrArg some (if_neg (mt here.mp window))
      · obtain rfl := Nat.le_zero.mp hk.1
        exact window hk.2
  | succ offset ih =>
    by_cases window : WindowAt context path (offset + 1)
    · refine ⟨some (offset + 1), ?_, ⟨Nat.le_refl _, window⟩, fun k hk => hk.1⟩
      rw [searchDown?, cut]
      exact if_pos (here.mpr window)
    · have lower : offset + context.length ≤ path.length := by omega
      obtain ⟨found, run, last⟩ := ih lower (slice?_window lower) (windowMatches_iff lower)
      have same : {k | k ≤ offset + 1 ∧ WindowAt context path k} =
          {k | k ≤ offset ∧ WindowAt context path k} := by
        ext k
        refine and_congr_left fun at_k => ⟨fun hk => ?_, Nat.le_succ_of_le⟩
        rcases Nat.le_succ_iff.mp hk with hk | rfl
        · exact hk
        · exact absurd at_k window
      refine ⟨found, ?_, same ▸ last⟩
      rw [searchDown?, cut, ← run]
      exact if_neg (mt here.mp window)

end Offsets

section View

variable {path context : Text} (some_step : steps context ≠ [])

include some_step

theorem admissible_iff {offset : Nat} : Admissible path context offset ↔
    WindowAt (steps context) (steps path) offset ∧
      (isAnchored (Text.trim context) = true → offset = 0) := by
  rw [isAnchored_iff]
  constructor
  · intro h
    exact ⟨(windowAt_iff h.within).mpr h.names, h.start⟩
  · rintro ⟨window, start⟩
    have within := window.le_length some_step
    exact ⟨within, (windowAt_iff within).mp window, start⟩

theorem relativeTo_eq_none_of (h : ∀ offset, ¬ Admissible path context offset) :
    relativeTo path context = none := by
  rw [relativeTo_eq (by rwa [steps_trim]), steps_trim, Option.map_eq_none_iff]
  split
  · next anchored =>
    rw [Option.eq_none_iff_forall_ne_some]
    intro rest found
    have window := (afterContext?_eq_some_iff.mp found).1
    exact h 0 ((admissible_iff some_step).mpr ⟨window, fun _ => rfl⟩)
  · next free =>
    refine afterLastContext?_eq_none fun offset window => ?_
    exact h offset ((admissible_iff some_step).mpr ⟨window, fun anchored => absurd anchored free⟩)

theorem relativeTo_eq_some_of {offset : Nat}
    (h : IsGreatest {offset | Admissible path context offset} offset) :
    relativeTo path context =
      some (remainder ((steps path).drop (offset + (steps context).length))) := by
  obtain ⟨window, start⟩ := (admissible_iff some_step).mp h.1
  rw [relativeTo_eq (by rwa [steps_trim]), steps_trim]
  split
  · next anchored =>
    obtain rfl := start anchored
    rw [afterContext?_eq_some_iff.mpr ⟨window, rfl⟩, Nat.zero_add]
    rfl
  · next free =>
    have later : ∀ other, offset < other → ¬ WindowAt (steps context) (steps path) other := by
      intro other after at_other
      have admissible : Admissible path context other :=
        (admissible_iff some_step).mpr ⟨at_other, fun anchored => absurd anchored free⟩
      exact absurd (h.2 admissible) (Nat.not_le.mpr after)
    rw [afterLastContext?_eq_some window later]
    rfl

theorem admissible_iff_le {offset : Nat} : Admissible path context offset ↔
    offset ≤ lastOffset (isAnchored (Text.trim context)) (steps context) (steps path) ∧
      WindowAt (steps context) (steps path) offset := by
  rw [admissible_iff some_step, and_comm]
  refine and_congr_left fun window => ?_
  have bound := window.le_length some_step
  unfold lastOffset
  split
  · next anchored => simp [anchored]
  · next free => exact iff_of_true (fun anchored => absurd anchored free) (by omega)

theorem exists_search (room : (steps context).length ≤ (steps path).length) :
    ∃ found, searchDown? (steps context) (steps path)
        (lastOffset (isAnchored (Text.trim context)) (steps context) (steps path)) = some found ∧
      IsLastOf {offset | Admissible path context offset} found := by
  have within : lastOffset (isAnchored (Text.trim context)) (steps context) (steps path) +
      (steps context).length ≤ (steps path).length := by
    unfold lastOffset
    split <;> omega
  obtain ⟨found, run, last⟩ := exists_searchDown? within
  exact ⟨found, run, Set.ext (fun _ => admissible_iff_le some_step) ▸ last⟩

end View

def viewFrom (path context : Text) (offset : Nat) : Text :=
  if offset + (steps context).length = (steps path).length then ['.']
  else List.intercalate "/" ((steps path).drop (offset + (steps context).length))

theorem remainder_eq_viewFrom {path context : Text} {offset : Nat}
    (h : Admissible path context offset) :
    remainder ((steps path).drop (offset + (steps context).length)) =
      viewFrom path context offset := by
  have within := h.within
  have nothing : (steps path).drop (offset + (steps context).length) = [] ↔
      offset + (steps context).length = (steps path).length := by
    rw [List.drop_eq_nil_iff]
    omega
  simp only [remainder, viewFrom, nothing]

theorem relativeTo_of_no_steps {context : Text} (empty : steps context = []) (path : Text) :
    relativeTo path context = none := by
  rw [relativeTo]
  simp only [steps_trim, empty]

theorem relativeTo_cases (path context : Text) :
    ((steps context = [] ∨ ∀ offset, ¬ Admissible path context offset) ∧
      relativeTo path context = none) ∨
    (steps context ≠ [] ∧ ∃ offset, IsGreatest {offset | Admissible path context offset} offset ∧
      relativeTo path context = some (viewFrom path context offset)) := by
  by_cases empty : steps context = []
  · exact Or.inl ⟨Or.inl empty, relativeTo_of_no_steps empty path⟩
  · by_cases room : (steps context).length ≤ (steps path).length
    · obtain ⟨found, -, last⟩ := exists_search empty room
      cases found with
      | none => exact Or.inl ⟨Or.inr last, relativeTo_eq_none_of empty last⟩
      | some offset =>
        refine Or.inr ⟨empty, offset, last, ?_⟩
        rw [relativeTo_eq_some_of empty last, remainder_eq_viewFrom last.1]
    · have never : ∀ offset, ¬ Admissible path context offset := fun offset h =>
        room ((Nat.le_add_left _ _).trans h.within)
      exact Or.inl ⟨Or.inr never, relativeTo_eq_none_of empty never⟩

theorem viewBySlices?_eq (path context : Text) :
    viewBySlices? path context = some (relativeTo path context) := by
  unfold viewBySlices?
  simp only [steps_trim]
  split
  · next refused =>
    rcases relativeTo_cases path context with ⟨-, unseen⟩ | ⟨some_step, offset, last, -⟩
    · rw [unseen]
    · have within := last.1.within
      have short := refused.resolve_left some_step
      omega
  · next room =>
    rw [not_or, Nat.not_lt] at room
    obtain ⟨found, run, last⟩ := exists_search room.1 room.2
    rw [run]
    cases found with
    | none =>
      rw [relativeTo_eq_none_of room.1 last]
      rfl
    | some offset =>
      have within := last.1.within
      rw [relativeTo_eq_some_of room.1 last, remainder_eq_viewFrom last.1, viewFrom,
        Option.bind_eq_bind, Option.bind_some]
      simp only
      split
      · rfl
      · rw [slice?, if_pos ⟨within, Nat.le_refl _⟩, ← List.length_drop, List.take_length]
        rfl

/-- A path is not seen from a context exactly if the context has no steps or no offset is
admissible; otherwise it is seen from the greatest one. So a path with steps is its own context
node, and the search by offsets stays within the steps. -/
theorem relativeTo_views_greatest_offset (path context : Text) :
    (relativeTo path context = none ↔
      steps context = [] ∨ ∀ offset, ¬ Admissible path context offset) ∧
    (∀ view, relativeTo path context = some view ↔ steps context ≠ [] ∧
      ∃ offset, IsGreatest {offset | Admissible path context offset} offset ∧
        view = viewFrom path context offset) ∧
    (steps path ≠ [] → relativeTo path path = some ['.']) ∧
    viewBySlices? path context = some (relativeTo path context) := by
  refine ⟨?_, ?_, relativeTo_self, viewBySlices?_eq path context⟩
  · rcases relativeTo_cases path context with ⟨nothing, unseen⟩ | ⟨some_step, offset, last, seen⟩
    · exact iff_of_true unseen nothing
    · refine iff_of_false (by rw [seen]; exact Option.some_ne_none _) ?_
      rintro (empty | never)
      · exact some_step empty
      · exact never offset last.1
  · intro view
    rcases relativeTo_cases path context with ⟨nothing, unseen⟩ | ⟨some_step, offset, last, seen⟩
    · refine iff_of_false (by rw [unseen]; exact Option.some_ne_none view ∘ Eq.symm) ?_
      rintro ⟨some_step, offset, last, -⟩
      exact nothing.elim some_step fun never => never offset last.1
    · rw [seen, Option.some_inj]
      constructor
      · intro same
        exact ⟨some_step, offset, last, same.symm⟩
      · rintro ⟨-, other, greatest, rfl⟩
        rw [greatest.unique last]

def unitPath : Text := "/Org/Unit[@kind='a/b']/Unit[2]/Name"

def unitLoop : Text := "//*/Unit[1]"

theorem unitPath_viewed_from_last :
    steps unitPath ≠ [] ∧ relativeTo unitPath unitPath = some ['.'] ∧
      Admissible unitPath unitLoop 0 ∧
      IsGreatest {offset | Admissible unitPath unitLoop offset} 1 ∧
      relativeTo unitPath unitLoop = some "Name".toList ∧
      viewBySlices? unitPath unitLoop = some (some "Name".toList) := by
  have given : steps unitPath = (["Org", "Unit[@kind='a/b']", "Unit[2]", "Name"] : List Text) :=
    (steps_eq_outerSteps (by decide)).trans (by decide)
  have wanted : steps unitLoop = (["*", "Unit[1]"] : List Text) :=
    (steps_eq_outerSteps (by decide)).trans (by decide)
  have some_step : steps unitPath ≠ [] := by simp [given]
  have windows : ∀ offset, Admissible unitPath unitLoop offset ↔
      WindowAt ["*", "Unit[1]"] ["Org", "Unit[@kind='a/b']", "Unit[2]", "Name"] offset := by
    intro offset
    rw [admissible_iff (by simp [wanted]), given, wanted]
    exact and_iff_left fun anchored => absurd anchored (by decide)
  have last : IsGreatest {offset | Admissible unitPath unitLoop offset} 1 := by
    refine ⟨(windows 1).mpr (by decide), fun offset h => ?_⟩
    have within := h.within
    have other : offset ≠ 2 := by
      rintro rfl
      exact absurd ((windows 2).mp h) (by decide)
    simp only [given, wanted, List.length_cons, List.length_nil] at within
    omega
  obtain ⟨-, seen, -, sliced⟩ := relativeTo_views_greatest_offset unitPath unitLoop
  obtain ⟨-, -, itself, -⟩ := relativeTo_views_greatest_offset unitPath unitPath
  have view : relativeTo unitPath unitLoop = some "Name".toList := by
    refine (seen _).mpr ⟨by simp [wanted], 1, last, ?_⟩
    rw [viewFrom, given, wanted]
    rfl
  exact ⟨some_step, itself some_step, (windows 0).mpr (by decide), last, view,
    sliced.trans (by rw [view])⟩

end FieldMap.Path
