import FieldMap.Path.Position
import FieldMap.Proofs.ContextWindows
import FieldMap.Proofs.JoinedPieces

/-!
What rewriting keeps of the text of a path. A position and a view from a context are both made by
taking the path apart into steps and joining them with single slashes, so a doubled slash between two
steps becomes a single one. A position otherwise keeps every character, save white space right
after the leading slashes; a view keeps the end of the path exactly if no slash is doubled after
the window of the context.
-/

namespace FieldMap.Path

/-- A step where it stands in a path: outside brackets, between slashes or the ends of the path. -/
structure StandsAt (p before step after : Text) : Prop where
  whole : p = before ++ step ++ after
  outside : depthAfter 0 before = 0
  start : before = [] ∨ before.getLast? = some '/'
  piece : IsPiece step
  ne_nil : step ≠ []
  finish : after = [] ∨ after.head? = some '/'

/-- The mark is put right after the last step that can carry a position, and nothing else is
changed; a path without such a step is left as it is. -/
def Marked (mark p out : Text) : Prop :=
  (∃ before step after, StandsAt p before step after ∧ takesPosition step = true ∧
      (∀ later ∈ outerSteps after, takesPosition later = false) ∧
      out = before ++ step ++ mark ++ after) ∨
    (∀ step ∈ steps p, takesPosition step = false) ∧ out = p

def positionMark (n : Nat) : Text :=
  "[" ++ Text.ofNat n ++ "]"

/-- The text ends in a slash and what is kept of it, and the slash is not doubled. -/
def KeepsEnd (p kept : Text) : Prop :=
  ∃ front, p = front ++ '/' :: kept ∧ front.getLast? ≠ some '/'

/-- What a path looks like around the end of a window of the context, with the view from there: the
steps before a slash end with the window, and the view is made of the steps after the slash. -/
structure ViewedFrom (context : List Text) (p view before after : Text) : Prop where
  whole : p = before ++ '/' :: after
  outside : depthAfter 0 before = 0
  step_end : before.getLast? ≠ some '/'
  window : ∃ offset, WindowAt context (outerSteps before) offset ∧
    offset + context.length = (outerSteps before).length
  rest : view = List.intercalate "/" (outerSteps after)

theorem Marked.length_or {mark p out : Text} (h : Marked mark p out) :
    out.length = p.length + mark.length ∨
      (∀ step ∈ steps p, takesPosition step = false) ∧ out = p := by
  refine h.imp_left ?_
  rintro ⟨before, step, after, stands, -, -, rfl⟩
  rw [stands.whole]
  simp only [List.length_append]
  omega

section Marking

variable (mark : Text)

theorem markFirst_cases (steps : List Text) :
    (∃ front step rest, steps = front ++ step :: rest ∧ takesPosition step = true ∧
      (∀ s ∈ front, takesPosition s = false) ∧
      markFirst mark steps = front ++ (step ++ mark) :: rest) ∨
    (∀ s ∈ steps, takesPosition s = false) ∧ markFirst mark steps = steps := by
  induction steps with
  | nil => exact Or.inr ⟨List.forall_mem_nil _, rfl⟩
  | cons s steps ih =>
    by_cases takes : takesPosition s = true
    · refine Or.inl ⟨[], s, steps, rfl, takes, List.forall_mem_nil _, ?_⟩
      rw [markFirst, if_pos takes]
      rfl
    · have skip : markFirst mark (s :: steps) = s :: markFirst mark steps := by
        rw [markFirst, if_neg takes]
      rw [Bool.not_eq_true] at takes
      rcases ih with ⟨front, step, rest, rfl, carries, none, e⟩ | ⟨none, e⟩
      · exact Or.inl ⟨s :: front, step, rest, rfl, carries, List.forall_mem_cons.mpr ⟨takes, none⟩,
          by rw [skip, e]; rfl⟩
      · exact Or.inr ⟨List.forall_mem_cons.mpr ⟨takes, none⟩, by rw [skip, e]⟩

def markLast (steps : List Text) : List Text :=
  (markFirst mark steps.reverse).reverse

theorem markLast_cases (steps : List Text) :
    (∃ front step rest, steps = front ++ step :: rest ∧ takesPosition step = true ∧
      (∀ s ∈ rest, takesPosition s = false) ∧
      markLast mark steps = front ++ (step ++ mark) :: rest) ∨
    (∀ s ∈ steps, takesPosition s = false) ∧ markLast mark steps = steps := by
  rcases markFirst_cases mark steps.reverse with ⟨front, step, rest, whole, takes, none, e⟩ | ⟨none, e⟩
  · refine Or.inl ⟨rest.reverse, step, front.reverse, ?_, takes, ?_, ?_⟩
    · rw [← List.reverse_reverse steps, whole]
      simp
    · exact fun s hs => none s (List.mem_reverse.mp hs)
    · rw [markLast, e]
      simp
  · refine Or.inr ⟨fun s hs => none s (List.mem_reverse.mpr hs), ?_⟩
    rw [markLast, e, List.reverse_reverse]

theorem markLast_of_none {steps : List Text} (h : ∀ s ∈ steps, takesPosition s = false) :
    markLast mark steps = steps := by
  rcases markLast_cases mark steps with ⟨front, step, rest, rfl, takes, -⟩ | ⟨-, e⟩
  · rw [h step (by simp)] at takes
    cases takes
  · exact e

end Marking

section Around

variable {front rest : List Text} (hf : ∀ t ∈ front, IsPiece t) (hr : ∀ t ∈ rest, IsPiece t)

include hf hr

theorem exists_around : ∃ before after,
    (∀ step, List.intercalate "/" (front ++ step :: rest) = before ++ step ++ after) ∧
      depthAfter 0 before = 0 ∧ (before = [] ∨ before.getLast? = some '/') ∧
      (after = [] ∨ after.head? = some '/') ∧ outerSteps after = rest.filter (· ≠ []) := by
  have tail : ∃ after, (∀ step, List.intercalate "/" (step :: rest) = step ++ after) ∧
      (after = [] ∨ after.head? = some '/') ∧ outerSteps after = rest.filter (· ≠ []) := by
    cases rest with
    | nil =>
      refine ⟨[], fun step => ?_, Or.inl rfl, rfl⟩
      rw [List.intercalate_singleton, List.append_nil]
    | cons next rest =>
      refine ⟨'/' :: List.intercalate "/" (next :: rest), fun step => ?_, Or.inr rfl, ?_⟩
      · simp [List.intercalate_cons_cons]
      · exact outerSteps_intercalate hr
  obtain ⟨after, joined, slash, later⟩ := tail
  by_cases empty : front = []
  · subst empty
    exact ⟨[], after, joined, rfl, Or.inl rfl, slash, later⟩
  · refine ⟨List.intercalate "/" front ++ ['/'], after, fun step => ?_, ?_, Or.inr ?_, slash, later⟩
    · rw [Text.intercalate_append _ empty (List.cons_ne_nil step rest), joined]
      simp
    · rw [depthAfter_append, depthAfter_intercalate hf]
      rfl
    · exact List.getLast?_concat

end Around

theorem length_intercalate_markLast_le (mark : Text) {parts : List Text} (h : ∀ t ∈ parts, IsPiece t) :
    (List.intercalate "/" (markLast mark parts)).length ≤
      (List.intercalate "/" parts).length + mark.length := by
  rcases markLast_cases mark parts with ⟨front, step, rest, rfl, -, -, e⟩ | ⟨-, e⟩
  · rw [List.forall_mem_append, List.forall_mem_cons] at h
    obtain ⟨before, after, around, -⟩ := exists_around h.1 h.2.2
    rw [e, around, around]
    simp only [List.length_append]
    omega
  · rw [e]
    exact Nat.le_add_right _ _

section Slashes

variable {slashes : Text} (h : ∀ c ∈ slashes, c = '/')

include h

theorem depthAfter_slashes : depthAfter 0 slashes = 0 := by
  induction slashes with
  | nil => rfl
  | cons c cs ih =>
    rw [List.forall_mem_cons] at h
    rw [h.1]
    exact ih h.2

theorem getLast?_slashes : slashes = [] ∨ slashes.getLast? = some '/' := by
  rcases List.eq_nil_or_concat slashes with none | ⟨front, c, whole⟩
  · exact Or.inl none
  · have slash := h c (by rw [whole]; simp)
    rw [whole, slash, List.concat_eq_append, List.getLast?_concat]
    exact Or.inr rfl

end Slashes

theorem marked_of_single {slashes : Text} {parts : List Text} (hs : ∀ c ∈ slashes, c = '/')
    (hp : ∀ t ∈ parts, IsPiece t ∧ t ≠ [])
    (named : steps (slashes ++ List.intercalate "/" parts) = parts) (mark : Text) :
    Marked mark (slashes ++ List.intercalate "/" parts)
      (slashes ++ List.intercalate "/" (markLast mark parts)) := by
  rcases markLast_cases mark parts with ⟨front, step, rest, rfl, takes, none, e⟩ | ⟨none, e⟩
  · have pieces : ∀ t ∈ front ++ step :: rest, IsPiece t := fun t ht => (hp t ht).1
    rw [List.forall_mem_append, List.forall_mem_cons] at pieces
    obtain ⟨before, after, joined, outside, start, finish, later⟩ := exists_around pieces.1 pieces.2.2
    have after_slash : slashes ++ before = [] ∨ (slashes ++ before).getLast? = some '/' := by
      rcases start with rfl | last
      · rw [List.append_nil]
        exact getLast?_slashes hs
      · rw [List.getLast?_append, last]
        exact Or.inr rfl
    refine Or.inl ⟨slashes ++ before, step, after,
      ⟨?_, ?_, after_slash, pieces.2.1, (hp step (by simp)).2, finish⟩, takes, ?_, ?_⟩
    · rw [joined]
      simp only [List.append_assoc]
    · rw [depthAfter_append, depthAfter_slashes hs, outside]
    · intro s hs
      rw [later] at hs
      exact none s (List.mem_of_mem_filter hs)
    · rw [e, joined]
      simp only [List.append_assoc]
  · refine Or.inr ⟨?_, by rw [e]⟩
    rwa [named]

theorem exists_takesPosition_of_blank {t : Text} {c : Char} (first : c ∈ t.head?)
    (blank : Text.isBlank c = true) : ∃ step ∈ outerSteps t, takesPosition step = true := by
  obtain ⟨cs, rfl⟩ := List.head?_eq_some_iff.mp first
  have ne_of (d : Char) (visible : Text.isBlank d = false) : c ≠ d := by
    rintro rfl
    rw [blank] at visible
    cases visible
  obtain ⟨piece, pieces, e⟩ := List.exists_cons_of_ne_nil (outerPieces_ne_nil (depthStep 0 c) cs)
  refine ⟨c :: piece, ?_, ?_⟩
  · rw [outerSteps, outerPieces_other (ne_of '/' (by decide)), e]
    simp [onFirst]
  · simp [takesPosition, ne_of '@' (by decide), ne_of '.' (by decide)]

section Position

variable {p : Text} (balanced : Path.balanced p = true) (trimmed : Text.trim p = p)

theorem withPosition_eq (n : Nat) :
    withPosition p n =
      p.takeWhile (· = '/') ++
        List.intercalate "/" (markLast (positionMark n) (steps (p.dropWhile (· = '/')))) :=
  rfl

include trimmed

theorem trim_dropWhile :
    Text.trim (p.dropWhile (· = '/')) = (p.dropWhile (· = '/')).dropWhile Text.isBlank := by
  rw [Text.trim, Text.dropEndWhile_eq_self]
  intro c hc
  have last : c ∈ p.getLast? := Text.getLast?_dropWhile (Text.getLast?_dropWhile hc)
  rw [← trimmed] at last
  exact Text.getLast?_trim last

theorem trim_dropWhile_eq_self_iff :
    Text.trim (p.dropWhile (· = '/')) = p.dropWhile (· = '/') ↔
      ∀ c ∈ (p.dropWhile (· = '/')).head?, Text.isBlank c = false := by
  constructor
  · intro same c hc
    rw [← same] at hc
    exact Text.head?_trim hc
  · intro visible
    rw [trim_dropWhile trimmed, Text.dropWhile_eq_self visible]

include balanced

omit trimmed in
theorem balanced_trim_dropWhile : Path.balanced (Text.trim (p.dropWhile (· = '/'))) = true := by
  rw [balanced_trim, balanced_dropWhile (by decide) (by decide), balanced]

omit trimmed in
theorem steps_dropWhile :
    steps (p.dropWhile (· = '/')) = outerSteps (Text.trim (p.dropWhile (· = '/'))) :=
  steps_eq_outerSteps (depthAfter_of_balancedFrom (balanced_trim_dropWhile balanced))

theorem marked_withPosition (visible : Text.trim (p.dropWhile (· = '/')) = p.dropWhile (· = '/'))
    (single : List.intercalate "/" (outerSteps (p.dropWhile (· = '/'))) = p.dropWhile (· = '/'))
    (n : Nat) :
    Marked (positionMark n) p (withPosition p n) := by
  have parts : steps (p.dropWhile (· = '/')) = outerSteps p := by
    rw [steps_dropWhile balanced, visible, outerSteps_dropWhile]
  have whole : p = p.takeWhile (· = '/') ++ List.intercalate "/" (outerSteps p) := by
    rw [← outerSteps_dropWhile, single, List.takeWhile_append_dropWhile]
  have slashes : ∀ c ∈ p.takeWhile (· = '/'), c = '/' := fun c hc => by
    simpa using List.mem_takeWhile_imp hc
  have marked := marked_of_single slashes
    (fun t ht => ⟨isPiece_of_mem_outerSteps balanced t ht, ne_nil_of_mem_outerSteps t ht⟩)
    (by rw [← whole, steps_of_balanced balanced trimmed]) (positionMark n)
  rwa [← whole, ← parts, ← withPosition_eq] at marked

theorem single_of_marked {n : Nat} (h : Marked (positionMark n) p (withPosition p n)) :
    Text.trim (p.dropWhile (· = '/')) = p.dropWhile (· = '/') ∧
      List.intercalate "/" (outerSteps (p.dropWhile (· = '/'))) = p.dropWhile (· = '/') := by
  -- What is dropped would be missing in the length of the text. Without a step to mark nothing is
  -- longer, but then the steps are those of the whole path.
  have pieces := isPiece_of_mem_outerSteps (balanced_trim_dropWhile balanced)
  have whole := List.takeWhile_append_dropWhile (p := (· = '/')) (l := p)
  have all := (outerSteps_dropWhile p).trans (steps_of_balanced balanced trimmed).symm
  have visible_iff := trim_dropWhile_eq_self_iff trimmed
  rw [withPosition_eq, steps_dropWhile balanced] at h
  generalize p.dropWhile (· = '/') = b at *
  have inner : (Text.trim b).Sublist b := (Text.trim_isInfix b).sublist
  have joined : (List.intercalate "/" (outerSteps (Text.trim b))).Sublist (Text.trim b) :=
    intercalate_outerSteps_sublist _
  rcases h.length_or with longer | ⟨none, same⟩
  -- The mark adds its own length only, so the joined steps are as long as the text.
  · have most := length_intercalate_markLast_le (positionMark n) pieces
    have lengths := congrArg List.length whole
    simp only [List.length_append] at longer lengths
    have full : b.length ≤ (List.intercalate "/" (outerSteps (Text.trim b))).length := by omega
    have visible : Text.trim b = b := inner.eq_of_length_le (full.trans joined.length_le)
    rw [visible] at joined full
    exact ⟨visible, joined.eq_of_length_le full⟩
  · have visible : Text.trim b = b := by
      refine visible_iff.mpr fun c hc => ?_
      by_contra blank
      rw [Bool.not_eq_false] at blank
      obtain ⟨step, member, takes⟩ := exists_takesPosition_of_blank hc blank
      rw [all] at member
      rw [none step member] at takes
      cases takes
    rw [visible, all, markLast_of_none _ none, ← all] at same
    exact ⟨visible, List.append_cancel_left (same.trans whole.symm)⟩

end Position

section View

variable {p view : Text}

theorem exists_viewedFrom {context : Text} (balanced : Path.balanced p = true)
    (trimmed : Text.trim p = p) (h : relativeTo p context = some view) (other : view ≠ ['.']) :
    ∃ before after, ViewedFrom (steps context) p view before after := by
  obtain ⟨offset, window, ne, some_left, e⟩ := exists_window_of_relativeTo h other
  rw [steps_of_balanced balanced trimmed] at window some_left e
  have inside := window.le_length ne
  have front_ne : (outerSteps p).take (offset + (steps context).length) ≠ [] := by
    rw [← List.length_pos_iff, List.length_take, Nat.min_eq_left inside]
    have some_step := List.length_pos_iff.mpr ne
    omega
  obtain ⟨before, after, whole, outside, step_end, front, rest⟩ :=
    exists_slash_after balanced (List.take_append_drop _ _).symm front_ne some_left
  refine ⟨before, after, whole, outside, step_end, ⟨offset, ?_, ?_⟩, by rw [e, rest]⟩
  · rw [front]
    exact window.take
  · rw [front, List.length_take, Nat.min_eq_left inside]

variable {context : List Text} {before after : Text} (h : ViewedFrom context p view before after)

include h

theorem ViewedFrom.balanced_after (balanced : Path.balanced p = true) :
    Path.balanced after = true := by
  rw [h.whole] at balanced
  have inner := balancedFrom_append balanced
  rw [h.outside] at inner
  exact (balancedFrom_cons.mp inner).2

theorem ViewedFrom.getLast?_after (ends : p.getLast? ≠ some '/') : after.getLast? ≠ some '/' := by
  intro slash
  rw [h.whole, List.getLast?_append, List.getLast?_cons, slash] at ends
  exact ends rfl

theorem ViewedFrom.keepsEnd_iff :
    KeepsEnd p view ↔ List.intercalate "/" (outerSteps after) = after := by
  -- The view is the end of the path exactly if it is all that follows the slash: what is missing in
  -- it is made of slashes, so one of them would stand right before its own.
  have same := filter_intercalate_outerSteps after
  have short := (intercalate_outerSteps_sublist after).length_le
  rw [← h.rest] at same short ⊢
  constructor
  · rintro ⟨front, whole, last⟩
    obtain ⟨more, joined⟩ : '/' :: view <:+ '/' :: after :=
      List.suffix_of_suffix_length_le ⟨front, whole.symm⟩ ⟨before, h.whole.symm⟩
        (Nat.succ_le_succ short)
    have front_eq : front = before ++ more := by
      rw [h.whole, ← joined, ← List.append_assoc] at whole
      exact (List.append_cancel_right whole).symm
    have slashes : ∀ c ∈ more, c = '/' := by
      have kept := congrArg (List.filter (· ≠ '/')) joined
      rw [List.filter_append, List.filter_cons_of_neg (by simp), List.filter_cons_of_neg (by simp),
        ← same] at kept
      have none : more.filter (· ≠ '/') = [] := by simpa using kept
      simpa using none
    rcases getLast?_slashes slashes with rfl | slash
    · exact (List.cons.inj joined).2
    · rw [front_eq, List.getLast?_append, slash] at last
      exact absurd rfl last
  · rintro rfl
    exact ⟨before, h.whole, h.step_end⟩

end View

/-- A position and a view keep the text of a path exactly if no slash is doubled in the part that is
taken apart and, for a position, no white space follows the leading slashes. -/
theorem rewriting_keeps_text_iff {p : Text} (balanced : Path.balanced p = true)
    (trimmed : Text.trim p = p) (ends : p.getLast? ≠ some '/') :
    (∀ n, Marked (positionMark n) p (withPosition p n) ↔
      ¬ DoubledSlash (p.dropWhile (· = '/')) ∧
        ∀ c ∈ (p.dropWhile (· = '/')).head?, Text.isBlank c = false) ∧
    ∀ context view, relativeTo p context = some view → view ≠ ['.'] →
      ∃ before after, ViewedFrom (steps context) p view before after ∧
        (KeepsEnd p view ↔ ¬ DoubledSlash ('/' :: after)) := by
  constructor
  · intro n
    have start : (p.dropWhile (· = '/')).head? ≠ some '/' := by
      intro slash
      exact absurd (Text.head?_dropWhile slash) (by decide)
    have finish : (p.dropWhile (· = '/')).getLast? ≠ some '/' := fun slash =>
      ends (Text.getLast?_dropWhile slash)
    have closed : Path.balanced (p.dropWhile (· = '/')) = true :=
      (balanced_dropWhile (by decide) (by decide) p).trans balanced
    rw [← doubledSlash_cons start, ← intercalate_outerSteps_eq_iff finish closed,
      ← trim_dropWhile_eq_self_iff trimmed]
    constructor
    · intro marked
      exact (single_of_marked balanced trimmed marked).symm
    · rintro ⟨single, visible⟩
      exact marked_withPosition balanced trimmed visible single n
  · intro context view h other
    obtain ⟨before, after, seen⟩ := exists_viewedFrom balanced trimmed h other
    refine ⟨before, after, seen, ?_⟩
    rw [seen.keepsEnd_iff,
      intercalate_outerSteps_eq_iff (seen.getLast?_after ends) (seen.balanced_after balanced)]

/-- A path that is kept, with doubled slashes at its start and in a predicate only. -/
def shelfPath : Text :=
  "//shelf/book[.//note]/@id"

theorem shelfPath_kept :
    balanced shelfPath = true ∧ Text.trim shelfPath = shelfPath ∧ shelfPath.getLast? ≠ some '/' ∧
      withPosition shelfPath 2 = "//shelf/book[.//note][2]/@id" ∧
      Marked (positionMark 2) shelfPath (withPosition shelfPath 2) ∧
      relativeTo shelfPath "shelf" = some "book[.//note]/@id" ∧
      ∃ before after, ViewedFrom (steps "shelf") shelfPath "book[.//note]/@id" before after ∧
        (KeepsEnd shelfPath "book[.//note]/@id" ↔ ¬ DoubledSlash ('/' :: after)) := by
  have balanced : balanced shelfPath = true := by decide +kernel
  have trimmed : Text.trim shelfPath = shelfPath := by decide +kernel
  have ends : shelfPath.getLast? ≠ some '/' := by decide +kernel
  have seen : relativeTo shelfPath "shelf" = some "book[.//note]/@id" := by decide +kernel
  have kept := rewriting_keeps_text_iff balanced trimmed ends
  refine ⟨balanced, trimmed, ends, by decide +kernel, (kept.1 2).mpr ⟨?_, ?_⟩, seen,
    kept.2 _ _ seen (by decide +kernel)⟩
  · rw [← doubledSlash_cons (by decide +kernel),
      ← intercalate_outerSteps_eq_iff (by decide +kernel) (by decide +kernel)]
    decide +kernel
  · exact (trim_dropWhile_eq_self_iff trimmed).mp (by decide +kernel)

def notePath : Text :=
  "//shelf/book//note"

/-- Neither a position nor a view keeps the doubled slash. -/
theorem notePath_not_kept :
    balanced notePath = true ∧ Text.trim notePath = notePath ∧ notePath.getLast? ≠ some '/' ∧
      withPosition notePath 1 = "//shelf/book/note[1]" ∧
      ¬ Marked (positionMark 1) notePath (withPosition notePath 1) ∧
      relativeTo notePath "//shelf" = some "book/note" ∧ ¬ KeepsEnd notePath "book/note" := by
  refine ⟨by decide +kernel, by decide +kernel, by decide +kernel, by decide +kernel, ?_,
    by decide +kernel, ?_⟩
  · intro marked
    exact absurd marked.length_or (by decide +kernel)
  · rintro ⟨front, whole, -⟩
    have ending : '/' :: "book/note".toList <:+ notePath := ⟨front, whole.symm⟩
    exact absurd ending (by decide +kernel)

end FieldMap.Path
