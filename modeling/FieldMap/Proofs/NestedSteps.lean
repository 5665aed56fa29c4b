import FieldMap.Proofs.MarkupTokens
import FieldMap.Proofs.Trees

/-!
Layout steps that are well nested. A stack of names follows the tags that are opened and closed: a
closing tag takes the last name off the stack and has to name the same element. Where this works to
the end, the depth of the layout is the height of the stack, so no tag is closed at the margin. The
indentation goes into the blanks before each line alone.
-/

namespace FieldMap.Markup

def isTagChar (c : Char) : Bool :=
  c ≠ ' ' && c ≠ '>'

def tagName (tag : Text) : Text :=
  (tag.drop 1).takeWhile isTagChar

def IsTagName (name : Text) : Prop :=
  name.all isTagChar = true

instance (name : Text) : Decidable (IsTagName name) :=
  inferInstanceAs (Decidable (_ = _))

theorem tagName_startText {t : Tag} (h : IsTagName t.name) : tagName t.startText = t.name := by
  have rest : (t.attrs.flatMap Attr.text ++ ">".toList).takeWhile isTagChar = [] := by
    cases t.attrs with
    | nil => rfl
    | cons a attrs => rfl
  have opened : t.startText = '<' :: (t.name ++ (t.attrs.flatMap Attr.text ++ ">".toList)) := by
    simp [Tag.startText, Tag.content]
  rw [opened, tagName, List.drop_one, List.tail_cons,
    List.takeWhile_append_of_pos (List.all_eq_true.mp h), rest, List.append_nil]

/-- The names of the open elements after a step, innermost first. A tag can be closed only if it is
the last one that was opened. -/
def Step.opened? (names : List Text) : Step → Option (List Text)
  | .start tag => some (tagName tag :: names)
  | .finish tag =>
    match names with
    | [] => none
    | name :: outer => if tag = "</" ++ name ++ ">" then some outer else none
  | _ => some names

def opened? (names : List Text) (steps : List Step) : Option (List Text) :=
  steps.foldlM Step.opened? names

section opened

variable {names inner : List Text}

theorem opened?_append {a : List Step} (h : opened? names a = some inner) (b : List Step) :
    opened? names (a ++ b) = opened? inner b := by
  rw [opened?, List.foldlM_append, ← opened?, h]
  rfl

theorem opened?_cons {step : Step} (h : step.opened? names = some inner) (steps : List Step) :
    opened? names (step :: steps) = opened? inner steps := by
  rw [opened?, List.foldlM_cons, h]
  rfl

theorem Step.depthAfter_of_opened? {step : Step} (h : step.opened? names = some inner) :
    step.depthAfter names.length = inner.length := by
  cases step with
  | line text =>
    cases h
    rfl
  | start tag =>
    cases h
    rfl
  | finish tag =>
    cases names with
    | nil => cases h
    | cons name outer =>
      obtain ⟨-, same⟩ := Option.ite_some_none_eq_some.mp h
      rw [← same, Step.depthAfter, List.length_cons]
      omega
  | comment text =>
    cases h
    rfl

theorem depthAfter_of_opened? {steps : List Step} (h : opened? names steps = some inner) :
    steps.foldl Step.depthAfter names.length = inner.length := by
  induction steps generalizing names with
  | nil =>
    cases h
    rfl
  | cons step steps ih =>
    cases next : step.opened? names with
    | none =>
      rw [opened?, List.foldlM_cons, next] at h
      cases h
    | some between =>
      rw [opened?_cons next] at h
      rw [List.foldl_cons, step.depthAfter_of_opened? next, ih h]

end opened

/-- Steps from the margin back to the margin, in which each closing tag names the element of the
matching start tag and none comes when nothing is open. -/
structure Balanced (steps : List Step) : Prop where
  matched : opened? [] steps = some []
  above_margin : ∀ before tag after, steps = before ++ .finish tag :: after →
    0 < before.foldl Step.depthAfter 0
  ends_at_margin : steps.foldl Step.depthAfter 0 = 0

theorem balanced_of_opened? {steps : List Step} (h : opened? [] steps = some []) : Balanced steps where
  matched := h
  above_margin before tag after e := by
    rw [e, opened?, List.foldlM_append, ← opened?] at h
    obtain ⟨names, reached, left⟩ := Option.bind_eq_some_iff.mp h
    have height : before.foldl Step.depthAfter 0 = names.length := depthAfter_of_opened? reached
    rw [height, List.length_pos_iff]
    rintro rfl
    cases left
  ends_at_margin := depthAfter_of_opened? h

mutual

def Named : Markup → Prop
  | .line _ => True
  | .block tag body => IsTagName tag.name ∧ AllNamed body
  | .comment _ => True

def AllNamed : List Markup → Prop
  | [] => True
  | m :: ms => m.Named ∧ AllNamed ms

end

theorem allNamed_append {a b : List Markup} : AllNamed (a ++ b) ↔ AllNamed a ∧ AllNamed b :=
  Trees.append_iff trivial (fun _ _ => Iff.rfl) a b

mutual

theorem opened?_steps (names : List Text) (m : Markup) (h : m.Named) :
    opened? names m.steps = some names := by
  cases m with
  | line element => rfl
  | block tag body =>
    have start : (Step.start tag.startText).opened? names = some (tag.name :: names) := by
      rw [Step.opened?, tagName_startText h.1]
    have finish : (Step.finish tag.endText).opened? (tag.name :: names) = some names := if_pos rfl
    rw [steps, opened?_cons start, opened?_append (opened?_allSteps _ body h.2), opened?_cons finish]
    rfl
  | comment text => rfl

theorem opened?_allSteps (names : List Text) (ms : List Markup) (h : AllNamed ms) :
    opened? names (allSteps ms) = some names := by
  cases ms with
  | nil => rfl
  | cons m ms => rw [allSteps, opened?_append (opened?_steps names m h.1), opened?_allSteps names ms h.2]

end

end FieldMap.Markup
