import FieldMap.Proofs.BracketDepth

/-!
Paths put together from their pieces. Joining the pieces of a path, the empty ones among them, gives
the path, and joining pieces gives a path that has them for its pieces. So a path is made of its steps
with single slashes between them exactly if it has no doubled slash outside its brackets.
-/

namespace FieldMap.Text

theorem intercalate_append (sep : Text) {a b : List Text} (ha : a ≠ []) (hb : b ≠ []) :
    sep.intercalate (a ++ b) = sep.intercalate a ++ sep ++ sep.intercalate b := by
  induction a with
  | nil => exact absurd rfl ha
  | cons t ts ih =>
    cases ts with
    | nil =>
      obtain ⟨u, us, rfl⟩ := List.exists_cons_of_ne_nil hb
      rw [List.singleton_append, List.intercalate_cons_cons, List.intercalate_singleton]
    | cons u us =>
      have rest := ih (List.cons_ne_nil u us)
      rw [List.cons_append, List.cons_append, List.intercalate_cons_cons, List.intercalate_cons_cons,
        ← List.cons_append, rest]
      simp only [List.append_assoc]

theorem intercalate_sublist (sep : Text) {a b : List Text} (h : a.Sublist b) :
    (sep.intercalate a).Sublist (sep.intercalate b) := by
  induction h with
  | slnil => exact List.Sublist.refl _
  | @cons a b t inner ih =>
    cases b with
    | nil =>
      rw [List.sublist_nil.mp inner]
      exact List.nil_sublist _
    | cons u us =>
      rw [List.intercalate_cons_cons]
      exact ih.trans (List.sublist_append_right _ _)
  | @cons_cons a b t inner ih =>
    cases a with
    | nil =>
      cases b with
      | nil => exact List.Sublist.refl _
      | cons u us =>
        rw [List.intercalate_cons_cons, List.intercalate_singleton, List.append_assoc]
        exact List.sublist_append_left _ _
    | cons v vs =>
      cases b with
      | nil => cases inner
      | cons u us =>
        rw [List.intercalate_cons_cons, List.intercalate_cons_cons]
        exact ih.append_left _

theorem getLast?_intercalate_concat (sep : Text) (front : List Text) {last : Text} (ne : last ≠ []) :
    (sep.intercalate (front ++ [last])).getLast? = last.getLast? := by
  by_cases empty : front = []
  · rw [empty, List.nil_append, List.intercalate_singleton]
  · rw [intercalate_append _ empty (List.cons_ne_nil _ _), List.intercalate_singleton,
      List.getLast?_append_of_ne_nil _ ne]

end FieldMap.Text

namespace FieldMap.Path

/-- A piece of a path: no slash outside brackets divides it, and it closes the brackets it opens. -/
structure IsPiece (t : Text) : Prop where
  single : outerPieces 0 t = [t]
  closed : depthAfter 0 t = 0

theorem intercalate_onFirst (part : Text) {pieces : List Text} (ne : pieces ≠ []) :
    List.intercalate "/" (onFirst part pieces) = part ++ List.intercalate "/" pieces := by
  obtain ⟨piece, pieces, rfl⟩ := List.exists_cons_of_ne_nil ne
  cases pieces with
  | nil => rw [onFirst, List.intercalate_singleton, List.intercalate_singleton]
  | cons next pieces =>
    rw [onFirst, List.intercalate_cons_cons, List.intercalate_cons_cons]
    simp only [List.append_assoc]

theorem intercalate_outerPieces (depth : Nat) (t : Text) :
    List.intercalate "/" (outerPieces depth t) = t := by
  induction t generalizing depth with
  | nil => rfl
  | cons c cs ih =>
    rw [outerPieces]
    split
    · next outer =>
      obtain ⟨piece, pieces, e⟩ := List.exists_cons_of_ne_nil (outerPieces_ne_nil 0 cs)
      have rest := ih 0
      rw [e] at rest ⊢
      rw [List.intercalate_cons_cons, rest, outer.1]
      rfl
    · rw [intercalate_onFirst _ (outerPieces_ne_nil _ _), ih]
      rfl

theorem outerPieces_single (depth : Nat) (t : Text) :
    ∃ first others, outerPieces depth t = first :: others ∧ outerPieces depth first = [first] ∧
      ∀ piece ∈ others, outerPieces 0 piece = [piece] := by
  induction t generalizing depth with
  | nil => exact ⟨[], [], rfl, rfl, List.forall_mem_nil _⟩
  | cons c cs ih =>
    rw [outerPieces]
    split
    · next outer =>
      obtain ⟨first, others, e, start, later⟩ := ih 0
      refine ⟨[], outerPieces 0 cs, rfl, rfl, ?_⟩
      rw [e, List.forall_mem_cons]
      exact ⟨start, later⟩
    · next inner =>
      obtain ⟨first, others, e, start, later⟩ := ih (depthStep depth c)
      refine ⟨c :: first, others, by rw [e]; rfl, ?_, later⟩
      rw [outerPieces, if_neg inner, start]
      rfl

theorem isPiece_of_mem_outerPieces {t piece : Text} (balanced : Path.balanced t = true)
    (h : piece ∈ outerPieces 0 t) : IsPiece piece := by
  obtain ⟨first, others, e, start, later⟩ := outerPieces_single 0 t
  obtain ⟨first', others', e', start', later'⟩ := balancedFrom_outerPieces balanced
  rw [e] at e' h
  cases e'
  rcases List.mem_cons.mp h with rfl | h
  · exact ⟨start, depthAfter_of_balancedFrom start'⟩
  · exact ⟨later piece h, depthAfter_of_balancedFrom (later' piece h)⟩

theorem IsPiece.getLast?_ne {t : Text} (h : IsPiece t) : t.getLast? ≠ some '/' := by
  -- The last character of a piece is no slash: it would stand outside brackets.
  intro last
  obtain ⟨front, rfl⟩ := List.getLast?_eq_some_iff.mp last
  have outside : depthAfter 0 front = 0 := by
    have closed := h.closed
    rwa [depthAfter_append] at closed
  have single := h.single
  rw [outerPieces_append_slash outside] at single
  have two := congrArg List.length single
  have some_piece := List.length_pos_iff.mpr (outerPieces_ne_nil 0 front)
  simp only [List.length_append, List.length_cons, List.length_nil, outerPieces] at two
  omega

section Join

variable {pieces : List Text} (h : ∀ t ∈ pieces, IsPiece t)

include h

theorem depthAfter_intercalate : depthAfter 0 (List.intercalate "/" pieces) = 0 := by
  induction pieces with
  | nil => rfl
  | cons t ts ih =>
    rw [List.forall_mem_cons] at h
    cases ts with
    | nil =>
      rw [List.intercalate_singleton]
      exact h.1.closed
    | cons u us =>
      rw [List.intercalate_cons_cons, depthAfter_append, depthAfter_append, h.1.closed]
      exact ih h.2

theorem outerPieces_intercalate (ne : pieces ≠ []) :
    outerPieces 0 (List.intercalate "/" pieces) = pieces := by
  induction pieces with
  | nil => exact absurd rfl ne
  | cons t ts ih =>
    rw [List.forall_mem_cons] at h
    cases ts with
    | nil =>
      rw [List.intercalate_singleton]
      exact h.1.single
    | cons u us =>
      have split : List.intercalate "/" (t :: u :: us) = t ++ '/' :: List.intercalate "/" (u :: us) := by
        simp [List.intercalate_cons_cons]
      rw [split, outerPieces_append_slash h.1.closed, h.1.single, ih h.2 (List.cons_ne_nil _ _)]
      rfl

theorem outerSteps_intercalate : outerSteps (List.intercalate "/" pieces) = pieces.filter (· ≠ []) := by
  cases pieces with
  | nil => rfl
  | cons t ts => rw [outerSteps, outerPieces_intercalate h (List.cons_ne_nil _ _)]

end Join

section Steps

variable {t : Text}

theorem isPiece_of_mem_outerSteps (balanced : Path.balanced t = true) :
    ∀ step ∈ outerSteps t, IsPiece step := fun _ h =>
  isPiece_of_mem_outerPieces balanced (List.mem_of_mem_filter h)

theorem ne_nil_of_mem_outerSteps : ∀ step ∈ outerSteps t, step ≠ [] := fun _ h => by
  simpa using List.of_mem_filter h

theorem intercalate_outerSteps_sublist (t : Text) :
    (List.intercalate "/" (outerSteps t)).Sublist t := by
  have whole : (List.intercalate "/" (outerSteps t)).Sublist (List.intercalate "/" (outerPieces 0 t)) :=
    Text.intercalate_sublist _ List.filter_sublist
  rwa [intercalate_outerPieces] at whole

end Steps

theorem filter_intercalate (pieces : List Text) :
    (List.intercalate "/" pieces).filter (· ≠ '/') = pieces.flatten.filter (· ≠ '/') := by
  induction pieces with
  | nil => rfl
  | cons t ts ih =>
    cases ts with
    | nil => simp [List.intercalate_singleton]
    | cons u us =>
      rw [List.intercalate_cons_cons, List.filter_append, List.filter_append, ih, List.flatten_cons,
        List.filter_append]
      simp

theorem filter_intercalate_outerSteps (t : Text) :
    (List.intercalate "/" (outerSteps t)).filter (· ≠ '/') = t.filter (· ≠ '/') := by
  rw [filter_intercalate, flatten_outerSteps, ← filter_intercalate, intercalate_outerPieces]

theorem exists_slash_after {p : Text} {front rest : List Text} (balanced : Path.balanced p = true)
    (h : outerSteps p = front ++ rest) (hf : front ≠ []) (hr : rest ≠ []) :
    ∃ before after, p = before ++ '/' :: after ∧ depthAfter 0 before = 0 ∧
      before.getLast? ≠ some '/' ∧ outerSteps before = front ∧ outerSteps after = rest := by
  obtain ⟨init, last, rfl⟩ : ∃ init last, front = init ++ [last] :=
    ⟨front.dropLast, front.getLast hf, (List.dropLast_append_getLast hf).symm⟩
  have pieces : ∀ t ∈ outerPieces 0 p, IsPiece t := fun t ht => isPiece_of_mem_outerPieces balanced ht
  have joined := intercalate_outerPieces 0 p
  rw [outerSteps, List.append_assoc] at h
  obtain ⟨start, others, whole, init_eq, others_eq⟩ := List.filter_eq_append_iff.mp h
  obtain ⟨gap, later, rfl, skipped, kept, later_eq⟩ := List.filter_eq_cons_iff.mp others_eq
  -- Empty pieces before the last step stay with it; those after it go with the rest.
  have divided : outerPieces 0 p = (start ++ gap ++ [last]) ++ later := by
    rw [whole]
    simp
  have last_ne : last ≠ [] := by simpa using kept
  have later_ne : later ≠ [] := by
    rintro rfl
    exact hr later_eq.symm
  rw [divided, List.forall_mem_append] at pieces
  rw [divided, Text.intercalate_append _ (by simp) later_ne] at joined
  refine ⟨List.intercalate "/" (start ++ gap ++ [last]), List.intercalate "/" later, ?_,
    depthAfter_intercalate pieces.1,
    ?_, ?_, (outerSteps_intercalate pieces.2).trans later_eq⟩
  · rw [← joined]
    simp
  · rw [Text.getLast?_intercalate_concat _ _ last_ne]
    exact (pieces.1 last (by simp)).getLast?_ne
  · have empty : gap.filter (· ≠ []) = [] := List.filter_eq_nil_iff.mpr skipped
    rw [outerSteps_intercalate pieces.1, List.filter_append, List.filter_append, init_eq, empty]
    simp [last_ne]

def DoubledSlash (t : Text) : Prop :=
  ∃ before after, t = before ++ '/' :: '/' :: after ∧ depthAfter 0 before = 0

theorem head_outerPieces_eq_nil_iff (t : Text) :
    (∃ others, outerPieces 0 t = [] :: others) ↔ t = [] ∨ t.head? = some '/' := by
  cases t with
  | nil => exact iff_of_true ⟨[], rfl⟩ (Or.inl rfl)
  | cons c cs =>
    by_cases slash : c = '/'
    · subst slash
      exact iff_of_true ⟨_, outerPieces_slash cs⟩ (Or.inr rfl)
    · obtain ⟨piece, pieces, e⟩ := List.exists_cons_of_ne_nil (outerPieces_ne_nil (depthStep 0 c) cs)
      rw [outerPieces_other slash, e]
      simp [onFirst, slash]

theorem nil_mem_tail_outerPieces {depth : Nat} {t : Text} :
    [] ∈ (outerPieces depth t).tail ↔
      ∃ before after, t = before ++ '/' :: after ∧ depthAfter depth before = 0 ∧
        (after = [] ∨ after.head? = some '/') := by
  induction t generalizing depth with
  | nil => simp [outerPieces]
  | cons c cs ih =>
    rw [outerPieces]
    split
    · next outer =>
      obtain ⟨rfl, rfl⟩ := outer
      obtain ⟨first, others, e⟩ := List.exists_cons_of_ne_nil (outerPieces_ne_nil 0 cs)
      have front := head_outerPieces_eq_nil_iff cs
      have later := @ih 0
      rw [e] at front later
      rw [List.tail_cons, e, List.mem_cons]
      rw [List.tail_cons] at later
      constructor
      · rintro (empty | member)
        · exact ⟨[], cs, rfl, rfl, front.mp ⟨others, by rw [empty]⟩⟩
        · obtain ⟨before, after, rfl, outside, ends⟩ := later.mp member
          exact ⟨'/' :: before, after, rfl, outside, ends⟩
      · rintro ⟨before, after, whole, outside, ends⟩
        cases before with
        | nil =>
          cases whole
          obtain ⟨_, same⟩ := front.mpr ends
          cases same
          exact Or.inl rfl
        | cons d before =>
          cases whole
          exact Or.inr (later.mpr ⟨before, after, rfl, outside, ends⟩)
    · next inner =>
      obtain ⟨first, others, e⟩ := List.exists_cons_of_ne_nil (outerPieces_ne_nil (depthStep depth c) cs)
      have later := @ih (depthStep depth c)
      rw [e, List.tail_cons] at later
      rw [e, onFirst, List.tail_cons, later]
      constructor
      · rintro ⟨before, after, rfl, outside, ends⟩
        exact ⟨c :: before, after, rfl, outside, ends⟩
      · rintro ⟨before, after, whole, outside, ends⟩
        cases before with
        | nil =>
          cases whole
          exact absurd ⟨rfl, outside⟩ inner
        | cons d before =>
          cases whole
          exact ⟨before, after, rfl, outside, ends⟩

section Doubled

variable {t : Text} (ends : t.getLast? ≠ some '/')

include ends

theorem nil_mem_outerPieces_iff (ne : t ≠ []) : [] ∈ outerPieces 0 t ↔ DoubledSlash ('/' :: t) := by
  have tail : (outerPieces 0 ('/' :: t)).tail = outerPieces 0 t := rfl
  rw [← tail, nil_mem_tail_outerPieces]
  constructor
  · rintro ⟨before, after, whole, outside, empty | slash⟩
    · subst empty
      have last := congrArg List.getLast? whole
      obtain ⟨c, cs, rfl⟩ := List.exists_cons_of_ne_nil ne
      rw [List.getLast?_cons_cons, List.getLast?_concat] at last
      exact absurd last ends
    · obtain ⟨rest, rfl⟩ := List.head?_eq_some_iff.mp slash
      exact ⟨before, rest, whole, outside⟩
  · rintro ⟨before, rest, whole, outside⟩
    exact ⟨before, '/' :: rest, whole, outside, Or.inr rfl⟩

theorem intercalate_outerSteps_eq_iff (balanced : Path.balanced t = true) :
    List.intercalate "/" (outerSteps t) = t ↔ ¬ DoubledSlash ('/' :: t) := by
  by_cases ne : t = []
  · subst ne
    refine iff_of_true rfl ?_
    rintro ⟨before, after, whole, -⟩
    have lengths := congrArg List.length whole
    simp only [List.length_append, List.length_cons, List.length_nil] at lengths
    omega
  · rw [← nil_mem_outerPieces_iff ends ne]
    constructor
    · intro whole empty
      have pieces : outerPieces 0 t = outerSteps t := by
        have some_step : outerSteps t ≠ [] := by
          intro none
          rw [none] at whole
          exact ne whole.symm
        have joined := outerPieces_intercalate (isPiece_of_mem_outerSteps balanced) some_step
        rwa [whole] at joined
      rw [pieces] at empty
      exact ne_nil_of_mem_outerSteps [] empty rfl
    · intro full
      have same : outerSteps t = outerPieces 0 t := by
        rw [outerSteps, List.filter_eq_self]
        intro piece hp
        refine decide_eq_true ?_
        rintro rfl
        exact full hp
      rw [same, intercalate_outerPieces]

omit ends in
theorem doubledSlash_cons (start : t.head? ≠ some '/') :
    DoubledSlash ('/' :: t) ↔ DoubledSlash t := by
  constructor
  · rintro ⟨before, after, whole, outside⟩
    cases before with
    | nil =>
      cases whole
      exact absurd rfl start
    | cons c before =>
      cases whole
      exact ⟨before, after, rfl, outside⟩
  · rintro ⟨before, after, rfl, outside⟩
    exact ⟨'/' :: before, after, rfl, outside⟩

end Doubled

end FieldMap.Path
