import Mathlib.Data.List.Infix
import FieldMap.Path.Steps
import FieldMap.Proofs.Pieces

/-!
Steps by bracket depth. The pieces of a path are those between the slashes at which no bracket is
open, provided none is open at its end; this is what reading predicates one inside the other comes
to. Each piece of a balanced path is balanced, and each piece but the first stands after a slash.
-/

namespace FieldMap.Path

/-- The number of open brackets after a character; a bracket that closes nothing is not counted. -/
def depthStep (depth : Nat) (c : Char) : Nat :=
  if c = '[' then depth + 1 else if c = ']' then depth - 1 else depth

def depthAfter (depth : Nat) (t : Text) : Nat :=
  t.foldl depthStep depth

/-- The pieces between the slashes at depth zero. -/
def outerPieces : (depth : Nat) → Text → List Text
  | _, [] => [[]]
  | depth, c :: cs =>
    if c = '/' ∧ depth = 0 then [] :: outerPieces 0 cs
    else onFirst [c] (outerPieces (depthStep depth c) cs)

@[simp] theorem depthStep_open (depth : Nat) : depthStep depth '[' = depth + 1 := rfl

@[simp] theorem depthStep_close (depth : Nat) : depthStep depth ']' = depth - 1 := rfl

theorem depthStep_other {c : Char} (opens : c ≠ '[') (closes : c ≠ ']') (depth : Nat) :
    depthStep depth c = depth := by
  rw [depthStep, if_neg opens, if_neg closes]

theorem depthStep_zero {c : Char} (opens : c ≠ '[') : depthStep 0 c = 0 := by
  by_cases closes : c = ']'
  · rw [closes, depthStep_close]
  · exact depthStep_other opens closes 0

@[simp] theorem depthAfter_nil (depth : Nat) : depthAfter depth [] = depth := rfl

@[simp] theorem depthAfter_cons (depth : Nat) (c : Char) (t : Text) :
    depthAfter depth (c :: t) = depthAfter (depthStep depth c) t := rfl

theorem depthAfter_append (depth : Nat) (t u : Text) :
    depthAfter depth (t ++ u) = depthAfter (depthAfter depth t) u :=
  List.foldl_append

theorem onFirst_onFirst (a b : Text) (pieces : List Text) :
    onFirst a (onFirst b pieces) = onFirst (a ++ b) pieces := by
  cases pieces with
  | nil => rfl
  | cons piece pieces => simp [onFirst]

theorem outerPieces_slash (t : Text) : outerPieces 0 ('/' :: t) = [] :: outerPieces 0 t := rfl

theorem outerPieces_inside (depth : Nat) (c : Char) (t : Text) :
    outerPieces (depth + 1) (c :: t) = onFirst [c] (outerPieces (depthStep (depth + 1) c) t) := by
  rw [outerPieces, if_neg (by simp)]

theorem outerPieces_other {c : Char} (h : c ≠ '/') (depth : Nat) (t : Text) :
    outerPieces depth (c :: t) = onFirst [c] (outerPieces (depthStep depth c) t) := by
  rw [outerPieces, if_neg (by simp [h])]

section Reader

variable {t : Text}

theorem outerPieces_of_closing? {part rest : Text} {shorter : rest.length < t.length}
    (h : closing? t = some ⟨(part, rest), shorter⟩) (depth : Nat) :
    depthAfter (depth + 1) t = depthAfter depth rest ∧
      outerPieces (depth + 1) t = onFirst part (outerPieces depth rest) := by
  fun_induction closing? t generalizing depth part rest with
  | case1 => cases h
  | case2 cs =>
    cases h
    exact ⟨rfl, outerPieces_inside depth ']' cs⟩
  | case3 => cases h
  | case4 => cases h
  | case5 cs inner middle _ first _ outer last _ second _ ih₂ ih₁ =>
    cases h
    have opened := ih₂ first (depth + 1)
    have closed := ih₁ second depth
    rw [depthAfter_cons, outerPieces_inside, depthStep_open, opened.1, opened.2, closed.1, closed.2,
      onFirst_onFirst, onFirst_onFirst]
    exact ⟨rfl, rfl⟩
  | case6 => cases h
  | case7 c cs closes opens inner middle _ found ih =>
    cases h
    have later := ih found depth
    rw [depthAfter_cons, outerPieces_inside, depthStep_other opens closes, later.1, later.2,
      onFirst_onFirst]
    exact ⟨rfl, rfl⟩

theorem lt_depthAfter_of_closing? (h : closing? t = none) (depth : Nat) :
    depth < depthAfter (depth + 1) t := by
  fun_induction closing? t generalizing depth with
  | case1 => exact Nat.lt_succ_self depth
  | case2 => cases h
  | case3 cs none _ ih =>
    have deeper := ih none (depth + 1)
    rw [depthAfter_cons, depthStep_open]
    omega
  | case4 cs inner middle _ first _ none _ _ ih =>
    rw [depthAfter_cons, depthStep_open, (outerPieces_of_closing? first (depth + 1)).1]
    exact ih none depth
  | case5 => cases h
  | case6 c cs closes opens none ih =>
    rw [depthAfter_cons, depthStep_other opens closes]
    exact ih none depth
  | case7 => cases h

theorem pieces?_eq (t : Text) :
    pieces? t = if depthAfter 0 t = 0 then some (outerPieces 0 t) else none := by
  fun_induction pieces? t with
  | case1 => rfl
  | case2 cs ih =>
    rw [ih, apply_ite (Option.map _), outerPieces_slash]
    rfl
  | case3 cs none =>
    have deep := lt_depthAfter_of_closing? none 0
    rw [depthAfter_cons, depthStep_open, if_neg (Nat.ne_of_gt deep)]
  | case4 cs part rest _ found _ _ ih =>
    have closed := outerPieces_of_closing? found 0
    rw [ih, apply_ite (Option.map _), depthAfter_cons, outerPieces_other (by decide), depthStep_open,
      closed.1, closed.2, onFirst_onFirst]
    rfl
  | case5 c cs slash opens ih =>
    rw [ih, apply_ite (Option.map _), depthAfter_cons, outerPieces_other slash, depthStep_zero opens]
    rfl

end Reader

theorem outerPieces_ne_nil (depth : Nat) (t : Text) : outerPieces depth t ≠ [] := by
  cases t with
  | nil => exact List.cons_ne_nil _ _
  | cons c cs =>
    rw [outerPieces]
    split
    · exact List.cons_ne_nil _ _
    · cases outerPieces (depthStep depth c) cs <;> exact List.cons_ne_nil _ _

theorem onFirst_append (part : Text) {pieces : List Text} (ne : pieces ≠ []) (more : List Text) :
    onFirst part (pieces ++ more) = onFirst part pieces ++ more := by
  obtain ⟨piece, pieces, rfl⟩ := List.exists_cons_of_ne_nil ne
  rfl

theorem outerPieces_append_slash {depth : Nat} {t : Text} (h : depthAfter depth t = 0) (u : Text) :
    outerPieces depth (t ++ '/' :: u) = outerPieces depth t ++ outerPieces 0 u := by
  induction t generalizing depth with
  | nil =>
    obtain rfl : depth = 0 := h
    rfl
  | cons c cs ih =>
    rw [List.cons_append, outerPieces, outerPieces]
    split
    · next outer =>
      obtain ⟨rfl, rfl⟩ := outer
      have inner : depthAfter 0 cs = 0 := h
      rw [ih inner, List.cons_append]
    · rw [ih h, onFirst_append _ (outerPieces_ne_nil _ _)]

theorem flatten_onFirst (part : Text) (pieces : List Text) :
    (onFirst part pieces).flatten = part ++ pieces.flatten := by
  cases pieces with
  | nil => simp [onFirst]
  | cons piece pieces => simp [onFirst]

theorem flatten_outerPieces_of_not_mem {t : Text} (free : '/' ∉ t) (depth : Nat) :
    (outerPieces depth t).flatten = t := by
  induction t generalizing depth with
  | nil => rfl
  | cons c cs ih =>
    rw [List.mem_cons, not_or] at free
    rw [outerPieces_other (Ne.symm free.1), flatten_onFirst, ih free.2]
    rfl

theorem flatten_outerPieces_append {u : Text} (free : '/' ∉ u) (depth : Nat) (t : Text) :
    (outerPieces depth (t ++ u)).flatten = (outerPieces depth t).flatten ++ u := by
  induction t generalizing depth with
  | nil => exact flatten_outerPieces_of_not_mem free depth
  | cons c cs ih =>
    rw [List.cons_append, outerPieces, outerPieces]
    split
    · rw [List.flatten_cons, List.flatten_cons, ih]
      rfl
    · rw [flatten_onFirst, flatten_onFirst, ih, List.append_assoc]

theorem outerPieces_eq_cons (depth : Nat) (t : Text) :
    ∃ first others, outerPieces depth t = first :: others ∧ first <+: t ∧
      ∀ piece ∈ others, '/' :: piece <:+: t := by
  induction t generalizing depth with
  | nil => exact ⟨[], [], rfl, List.nil_prefix, List.forall_mem_nil _⟩
  | cons c cs ih =>
    rw [outerPieces]
    split
    · next outer =>
      obtain ⟨rfl, rfl⟩ := outer
      obtain ⟨first, others, e, start, later⟩ := ih 0
      refine ⟨[], outerPieces 0 cs, rfl, List.nil_prefix, ?_⟩
      rw [e, List.forall_mem_cons]
      exact ⟨(List.cons_prefix_cons.mpr ⟨rfl, start⟩).isInfix,
        fun piece hp => (later piece hp).trans (List.suffix_cons _ _).isInfix⟩
    · obtain ⟨first, others, e, start, later⟩ := ih (depthStep depth c)
      rw [e]
      exact ⟨c :: first, others, rfl, List.cons_prefix_cons.mpr ⟨rfl, start⟩,
        fun piece hp => (later piece hp).trans (List.suffix_cons _ _).isInfix⟩

section Balanced

variable {depth : Nat} {t u : Text}

theorem balancedFrom_cons {c : Char} :
    balancedFrom depth (c :: t) = true ↔
      ¬ (c = ']' ∧ depth = 0) ∧ balancedFrom (depthStep depth c) t = true := by
  by_cases opens : c = '['
  · simp [balancedFrom, opens]
  · by_cases closes : c = ']'
    · cases depth <;> simp [balancedFrom, closes]
    · simp [balancedFrom, opens, closes, depthStep_other]

theorem balancedFrom_append (h : balancedFrom depth (t ++ u) = true) :
    balancedFrom (depthAfter depth t) u = true := by
  induction t generalizing depth with
  | nil => exact h
  | cons c cs ih => exact ih (balancedFrom_cons.mp h).2

theorem depthAfter_of_balancedFrom (h : balancedFrom depth t = true) : depthAfter depth t = 0 := by
  have whole : balancedFrom (depthAfter depth t) [] = true :=
    balancedFrom_append (by rwa [List.append_nil])
  simpa [balancedFrom] using whole

theorem eq_of_balancedFrom {other : Nat} (h : balancedFrom depth t = true)
    (h' : balancedFrom other t = true) : depth = other := by
  induction t generalizing depth other with
  | nil => simp_all [balancedFrom]
  | cons c cs ih =>
    rw [balancedFrom_cons] at h h'
    have same := ih h.2 h'.2
    unfold depthStep at same
    grind

theorem balancedFrom_outerPieces (h : balancedFrom depth t = true) :
    ∃ first others, outerPieces depth t = first :: others ∧ balancedFrom depth first = true ∧
      ∀ piece ∈ others, balanced piece = true := by
  induction t generalizing depth with
  | nil => exact ⟨[], [], rfl, h, List.forall_mem_nil _⟩
  | cons c cs ih =>
    obtain ⟨open_or_other, rest⟩ := balancedFrom_cons.mp h
    rw [outerPieces]
    split
    · next outer =>
      obtain ⟨rfl, rfl⟩ := outer
      obtain ⟨first, others, e, start, later⟩ := ih rest
      refine ⟨[], outerPieces 0 cs, rfl, rfl, ?_⟩
      have same : outerPieces 0 cs = first :: others := e
      rw [same, List.forall_mem_cons]
      exact ⟨start, later⟩
    · obtain ⟨first, others, e, start, later⟩ := ih rest
      rw [e]
      exact ⟨c :: first, others, rfl, balancedFrom_cons.mpr ⟨open_or_other, start⟩, later⟩

theorem balanced_dropWhile {q : Char → Bool} (opens : q '[' = false) (closes : q ']' = false)
    (t : Text) : balanced (t.dropWhile q) = balanced t := by
  induction t with
  | nil => rfl
  | cons c cs ih =>
    by_cases drops : q c = true
    · have other : c ≠ '[' ∧ c ≠ ']' := by
        constructor <;> (rintro rfl; simp_all)
      rw [List.dropWhile_cons_of_pos drops, ih]
      simp [balanced, balancedFrom, other]
    · rw [List.dropWhile_cons_of_neg drops]

end Balanced

theorem balancedFrom_filter (depth : Nat) (t : Text) :
    balancedFrom depth (t.filter fun c => c = '[' || c = ']') = balancedFrom depth t := by
  induction t generalizing depth with
  | nil => rfl
  | cons c cs ih =>
    by_cases opens : c = '['
    · simp [balancedFrom, opens, ih]
    · by_cases closes : c = ']'
      · cases depth <;> simp [balancedFrom, closes, ih]
      · simp [balancedFrom, opens, closes, ih]

theorem balanced_congr {t u : Text}
    (h : (t.filter fun c => c = '[' || c = ']') = u.filter fun c => c = '[' || c = ']') :
    balanced t = balanced u := by
  rw [balanced, balanced, ← balancedFrom_filter, h, balancedFrom_filter]

theorem balanced_trim (t : Text) : balanced (Text.trim t) = balanced t := by
  have visible : ∀ c, Text.isBlank c = true → ¬ (c = '[' || c = ']') = true := by
    intro c blank bracket
    rcases Bool.or_eq_true_iff.mp bracket with opens | closes
    · rw [of_decide_eq_true opens] at blank
      exact absurd blank (by decide)
    · rw [of_decide_eq_true closes] at blank
      exact absurd blank (by decide)
  obtain ⟨rest, e, blank⟩ := Text.exists_dropEndWhile_append Text.isBlank (t.dropWhile Text.isBlank)
  have none : (rest.filter fun c => c = '[' || c = ']') = [] :=
    List.filter_eq_nil_iff.mpr fun c hc => visible c (blank c hc)
  rw [← balanced_dropWhile (q := Text.isBlank) (by decide) (by decide) t]
  refine balanced_congr ?_
  conv_rhs => rw [e]
  rw [List.filter_append, none, List.append_nil]
  rfl

def outerSteps (t : Text) : List Text :=
  (outerPieces 0 t).filter (· ≠ [])

theorem outerSteps_append_slash {t : Text} (h : depthAfter 0 t = 0) (u : Text) :
    outerSteps (t ++ '/' :: u) = outerSteps t ++ outerSteps u := by
  rw [outerSteps, outerPieces_append_slash h, List.filter_append]
  rfl

theorem flatten_outerSteps (t : Text) : (outerSteps t).flatten = (outerPieces 0 t).flatten :=
  List.flatten_filter_ne_nil

theorem outerSteps_dropWhile (t : Text) : outerSteps (t.dropWhile (· = '/')) = outerSteps t := by
  induction t with
  | nil => rfl
  | cons c cs ih =>
    by_cases slash : c = '/'
    · subst slash
      rw [List.dropWhile_cons_of_pos (by simp), ih]
      rfl
    · rw [List.dropWhile_cons_of_neg (by simpa using slash)]

theorem depthAfter_dropWhile (t : Text) :
    depthAfter 0 (t.dropWhile (· = '/')) = depthAfter 0 t := by
  induction t with
  | nil => rfl
  | cons c cs ih =>
    by_cases slash : c = '/'
    · subst slash
      rw [List.dropWhile_cons_of_pos (by simp), ih]
      rfl
    · rw [List.dropWhile_cons_of_neg (by simpa using slash)]

theorem steps_trim (path : Text) : steps (Text.trim path) = steps path := by
  rw [steps, steps, body, body, Text.trim_trim]

theorem steps_eq_outerSteps {path : Text} (h : depthAfter 0 (Text.trim path) = 0) :
    steps path = outerSteps (Text.trim path) := by
  have closed : depthAfter 0 (body path) = 0 := (depthAfter_dropWhile _).trans h
  rw [← outerSteps_dropWhile, steps, pieces?_eq, if_pos closed]
  rfl

theorem steps_of_balanced {p : Text} (balanced : Path.balanced p = true)
    (trimmed : Text.trim p = p) : steps p = outerSteps p := by
  have closed : depthAfter 0 (Text.trim p) = 0 := by
    rw [trimmed]
    exact depthAfter_of_balancedFrom balanced
  rw [steps_eq_outerSteps closed, trimmed]

end FieldMap.Path
