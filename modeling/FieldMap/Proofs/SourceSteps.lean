import FieldMap.Path.Source
import FieldMap.Proofs.BracketDepth

/-!
Source paths and their steps. A path is cut at its last `/@`, wherever that stands, while its steps
are those at bracket depth zero. The two agree on what a path reads exactly if the cut comes right
before the last step and no white space stands at it.
-/

namespace FieldMap.SourcePath

open FieldMap.Path

/-- The path is cut into what leads to an attribute and the name of the attribute: at the last `/@`,
or without one after an `@` at the start. -/
def IsCut (p before name : Text) : Prop :=
  (p = before ++ "/@".toList ++ name ∧ ¬ "/@".toList <:+: name) ∨
    (p = '@' :: name ∧ before = [] ∧ ¬ "/@".toList <:+: p)

/-- A path is read as its steps say: it is an attribute if its last step begins with `@`, and
otherwise the element of its last step. -/
structure AgreesWithSteps (p : Text) : Prop where
  attribute_iff : (parse p).isAttribute = true ↔ ∃ name, (steps p).getLast? = some ('@' :: name)
  attribute_parts : ∀ parent name, parse p = .attribute parent name →
    (steps p).getLast? = some ('@' :: name) ∧ steps parent = (steps p).dropLast
  element_name : ∀ parent name path, parse p = .element parent name path →
    name = (steps p).getLast?.getD []

section Cut

variable {p before name : Text}

theorem mark_isInfix_cons {c : Char} {t : Text} :
    "/@".toList <:+: c :: t ↔ (c = '/' ∧ t.head? = some '@') ∨ "/@".toList <:+: t := by
  rw [List.infix_cons_iff]
  refine or_congr_left ?_
  cases t with
  | nil => simp
  | cons d t => simp [eq_comm]

theorem lastAttribute?_cons_of_some {c : Char} {t : Text}
    (h : lastAttribute? t = some (before, name)) :
    lastAttribute? (c :: t) = some (c :: before, name) := by
  rw [lastAttribute?.eq_def]
  simp only [h]

theorem lastAttribute?_cons_of_none {c : Char} {t : Text} (h : lastAttribute? t = none) :
    lastAttribute? (c :: t) =
      if c = '/' ∧ t.head? = some '@' then some ([], t.tail) else none := by
  rw [lastAttribute?.eq_def]
  simp only [h]
  cases t with
  | nil => simp
  | cons d t => simp

theorem lastAttribute?_eq_none_iff {t : Text} :
    lastAttribute? t = none ↔ ¬ "/@".toList <:+: t := by
  induction t with
  | nil => exact iff_of_true rfl (by decide)
  | cons c cs ih =>
    rw [mark_isInfix_cons, not_or, ← ih]
    cases later : lastAttribute? cs with
    | some found => simp [lastAttribute?_cons_of_some later]
    | none => simp [lastAttribute?_cons_of_none later]

theorem lastAttribute?_append (before : Text) (free : ¬ "/@".toList <:+: name) :
    lastAttribute? (before ++ "/@".toList ++ name) = some (before, name) := by
  induction before with
  | nil =>
    have none : lastAttribute? ('@' :: name) = none := by
      rw [lastAttribute?_eq_none_iff, mark_isInfix_cons]
      simpa using free
    exact (lastAttribute?_cons_of_none none).trans (if_pos ⟨rfl, rfl⟩)
  | cons c cs ih => exact lastAttribute?_cons_of_some ih

theorem split_of_lastAttribute? (h : lastAttribute? p = some (before, name)) :
    p = before ++ "/@".toList ++ name ∧ ¬ "/@".toList <:+: name := by
  induction p generalizing before with
  | nil => cases h
  | cons c cs ih =>
    cases later : lastAttribute? cs with
    | some found =>
      rw [lastAttribute?_cons_of_some later] at h
      cases h
      obtain ⟨rfl, free⟩ := ih later
      exact ⟨rfl, free⟩
    | none =>
      rw [lastAttribute?_cons_of_none later] at h
      obtain ⟨⟨rfl, mark⟩, e⟩ := Option.ite_some_none_eq_some.mp h
      obtain ⟨rest, rfl⟩ := List.head?_eq_some_iff.mp mark
      cases e
      rw [lastAttribute?_eq_none_iff, mark_isInfix_cons, not_or] at later
      exact ⟨rfl, later.2⟩

theorem parse_eq_attribute_iff : parse p = .attribute before name ↔ IsCut p before name := by
  constructor
  · intro h
    unfold parse at h
    split at h
    · next found =>
      cases h
      exact Or.inl (split_of_lastAttribute? found)
    · next none =>
      split at h
      · cases h
        exact Or.inr ⟨rfl, rfl, lastAttribute?_eq_none_iff.mp none⟩
      · cases h
  · rintro (⟨rfl, free⟩ | ⟨rfl, rfl, free⟩)
    · unfold parse
      rw [lastAttribute?_append before free]
    · unfold parse
      rw [lastAttribute?_eq_none_iff.mpr free]
      rfl

theorem parse_eq_element (h : ∀ before name, ¬ IsCut p before name) :
    parse p = .element (List.intercalate "/" (steps p).dropLast) ((steps p).getLast?.getD []) p := by
  unfold parse
  split
  · next found => exact absurd (Or.inl (split_of_lastAttribute? found)) (h _ _)
  · next none =>
    split
    · exact absurd (Or.inr ⟨rfl, rfl, lastAttribute?_eq_none_iff.mp none⟩) (h _ _)
    · rfl

end Cut

theorem not_attribute_step {p : Text} (h : ∀ before name, ¬ IsCut p before name) {step : Text}
    (member : step ∈ outerSteps p) : step.head? ≠ some '@' := by
  intro begins
  obtain ⟨rest, rfl⟩ := List.head?_eq_some_iff.mp begins
  have free : ¬ "/@".toList <:+: p := by
    intro inside
    cases found : lastAttribute? p with
    | none => exact lastAttribute?_eq_none_iff.mp found inside
    | some cut => exact h _ _ (Or.inl (split_of_lastAttribute? found))
  obtain ⟨first, others, e, start, later⟩ := outerPieces_eq_cons 0 p
  have piece : '@' :: rest ∈ first :: others := e ▸ List.mem_of_mem_filter member
  rcases List.mem_cons.mp piece with rfl | after
  · obtain ⟨tail, rfl⟩ := start
    exact h [] _ (Or.inr ⟨rfl, rfl, free⟩)
  · have mark : "/@".toList <:+: '/' :: '@' :: rest := (List.prefix_append ['/', '@'] rest).isInfix
    exact free (mark.trans (later _ after))

theorem outerSteps_attribute (name : Text) :
    ∃ first others, outerSteps ('@' :: name) = ('@' :: first) :: others ∧
      ∀ step ∈ others, '/' :: step <:+: name := by
  obtain ⟨first, others, e, -, later⟩ := outerPieces_eq_cons 0 name
  have pieces : outerPieces 0 ('@' :: name) = ('@' :: first) :: others := by
    rw [outerPieces_other (by decide), depthStep_other (by decide) (by decide), e]
    rfl
  refine ⟨first, others.filter (· ≠ []), ?_, fun step hs => later step (List.mem_of_mem_filter hs)⟩
  rw [outerSteps, pieces]
  exact List.filter_cons_of_pos (by simp)

theorem outerSteps_attribute_eq {name : Text}
    (h : (outerSteps ('@' :: name)).getLast? = some ('@' :: name)) :
    outerSteps ('@' :: name) = ['@' :: name] := by
  obtain ⟨first, others, e, later⟩ := outerSteps_attribute name
  rw [e] at h ⊢
  cases others with
  | nil => simpa using h
  | cons second others =>
    rw [List.getLast?_cons_cons] at h
    have inside := later _ (List.mem_of_getLast? h)
    have longer := inside.length_le
    simp only [List.length_cons] at longer
    omega

section Blanks

variable {t : Text} (start : ∀ c ∈ t.head?, Text.isBlank c = false)

include start

theorem exists_trim_append : ∃ blanks, t = Text.trim t ++ blanks ∧
    ∀ c ∈ blanks, Text.isBlank c = true := by
  have front : t.dropWhile Text.isBlank = t := Text.dropWhile_eq_self start
  rw [Text.trim, front]
  exact Text.exists_dropEndWhile_append Text.isBlank t

theorem depthAfter_trim (depth : Nat) : depthAfter depth (Text.trim t) = depthAfter depth t := by
  have flat : ∀ blanks : Text, (∀ c ∈ blanks, Text.isBlank c = true) → ∀ depth,
      depthAfter depth blanks = depth := by
    intro blanks
    induction blanks with
    | nil => exact fun _ _ => rfl
    | cons c cs ih =>
      intro all depth
      rw [List.forall_mem_cons] at all
      have opens : c ≠ '[' := by
        rintro rfl
        exact absurd all.1 (by decide)
      have closes : c ≠ ']' := by
        rintro rfl
        exact absurd all.1 (by decide)
      rw [depthAfter_cons, depthStep_other opens closes, ih all.2]
  obtain ⟨blanks, e, all⟩ := exists_trim_append start
  conv_rhs => rw [e]
  rw [depthAfter_append, flat blanks all]

theorem trim_eq_self_of_outerSteps (h : outerSteps (Text.trim t) = outerSteps t) :
    Text.trim t = t := by
  obtain ⟨blanks, e, all⟩ := exists_trim_append start
  have free : '/' ∉ blanks := fun slash => absurd (all _ slash) (by decide)
  have texts := congrArg List.flatten h
  rw [flatten_outerSteps, flatten_outerSteps] at texts
  conv_rhs at texts => rw [e, flatten_outerPieces_append free]
  have none : blanks = [] := by simpa using texts
  rw [none, List.append_nil] at e
  exact e.symm

end Blanks

section Agreement

variable {p before name : Text}

theorem agrees_of_steps_eq (parsed : parse p = .attribute before name)
    (h : steps p = steps before ++ ['@' :: name]) : AgreesWithSteps p := by
  have last : (steps p).getLast? = some ('@' :: name) := by rw [h, List.getLast?_concat]
  refine ⟨?_, ?_, ?_⟩
  · rw [parsed]
    exact iff_of_true rfl ⟨name, last⟩
  · intro parent other e
    rw [parsed] at e
    cases e
    exact ⟨last, by rw [h, List.dropLast_concat]⟩
  · intro parent other path e
    rw [parsed] at e
    cases e

theorem agrees_of_element (balanced : Path.balanced p = true) (trimmed : Text.trim p = p)
    (h : ∀ before name, ¬ IsCut p before name) : AgreesWithSteps p := by
  have parsed := parse_eq_element h
  refine ⟨?_, ?_, ?_⟩
  · rw [parsed]
    refine iff_of_false Bool.false_ne_true ?_
    rintro ⟨name, last⟩
    have member := List.mem_of_getLast? last
    rw [steps_of_balanced balanced trimmed] at member
    exact not_attribute_step h member rfl
  · intro parent name e
    rw [parsed] at e
    cases e
  · intro parent name path e
    rw [parsed] at e
    cases e
    rfl

end Agreement

/-- The steps of a path that is cut in front of a balanced name, and those of its parts. -/
structure CutSteps (before name : Text) : Prop where
  whole : steps (before ++ "/@".toList ++ name) = outerSteps before ++ outerSteps ('@' :: name)
  last : steps ('@' :: name) = outerSteps ('@' :: name)
  parent : steps before = outerSteps (Text.trim before)

section Steps

variable {before name : Text}
  (balanced : Path.balanced (before ++ "/@".toList ++ name) = true)
  (trimmed : Text.trim (before ++ "/@".toList ++ name) = before ++ "/@".toList ++ name)

include trimmed in
theorem head?_before : ∀ c ∈ before.head?, Text.isBlank c = false := by
  intro c hc
  refine Text.head?_trim (t := before ++ "/@".toList ++ name) ?_
  rw [trimmed, List.append_assoc, List.head?_append, Option.mem_def.mp hc]
  rfl

include trimmed in
theorem trim_attribute : Text.trim ('@' :: name) = '@' :: name := by
  refine Text.trim_eq_self ?_ ?_
  · intro c hc
    cases hc
    decide
  · intro c hc
    refine Text.getLast?_trim (t := before ++ "/@".toList ++ name) ?_
    have split : before ++ "/@".toList ++ name = before ++ ['/'] ++ '@' :: name := by simp
    rw [trimmed, split, List.getLast?_append, Option.mem_def.mp hc]
    rfl

include balanced in
theorem depthAfter_before (inner : Path.balanced name = true) : depthAfter 0 before = 0 := by
  have rest := balancedFrom_append balanced
  rw [depthAfter_append] at rest
  exact eq_of_balancedFrom rest inner

include balanced trimmed in
theorem cutSteps (inner : Path.balanced name = true) : CutSteps before name := by
  have open_none := depthAfter_before balanced inner
  have whole : depthAfter 0 (Text.trim (before ++ "/@".toList ++ name)) = 0 := by
    rw [trimmed]
    exact depthAfter_of_balancedFrom balanced
  have last : depthAfter 0 (Text.trim ('@' :: name)) = 0 := by
    rw [trim_attribute trimmed]
    exact depthAfter_of_balancedFrom (balancedFrom_cons.mpr ⟨by simp, inner⟩)
  have parent : depthAfter 0 (Text.trim before) = 0 :=
    (depthAfter_trim (head?_before trimmed) 0).trans open_none
  refine ⟨?_, ?_, steps_eq_outerSteps parent⟩
  · have split : before ++ "/@".toList ++ name = before ++ '/' :: '@' :: name := by simp
    rw [steps_eq_outerSteps whole, trimmed, split, outerSteps_append_slash open_none]
  · rw [steps_eq_outerSteps last, trim_attribute trimmed]

end Steps

theorem balanced_of_mem_steps {p step : Text} (balanced : Path.balanced p = true)
    (trimmed : Text.trim p = p) (h : step ∈ steps p) : Path.balanced step = true := by
  rw [steps_of_balanced balanced trimmed] at h
  obtain ⟨first, others, e, start, later⟩ := balancedFrom_outerPieces balanced
  have piece : step ∈ first :: others := e ▸ List.mem_of_mem_filter h
  rcases List.mem_cons.mp piece with rfl | after
  · exact start
  · exact later step after

theorem steps_nil : steps [] = [] :=
  (steps_eq_outerSteps rfl).trans rfl

theorem balanced_name {name : Text} (h : Path.balanced ('@' :: name) = true) :
    Path.balanced name = true :=
  (balancedFrom_cons.mp h).2

/-- A balanced path without white space around it is read as its steps say exactly if, wherever it
is cut, the name is a single balanced step and no white space stands before the cut. -/
theorem parse_agrees_with_steps_iff {p : Text} (balanced : Path.balanced p = true)
    (trimmed : Text.trim p = p) :
    AgreesWithSteps p ↔ ∀ before name, IsCut p before name →
      Path.balanced name = true ∧ steps ('@' :: name) = ['@' :: name] ∧
        Text.trim before = before := by
  constructor
  · intro agrees before name cut
    obtain ⟨last, parent⟩ := agrees.attribute_parts before name (parse_eq_attribute_iff.mpr cut)
    have inner := balanced_name
      (balanced_of_mem_steps balanced trimmed (List.mem_of_getLast? last))
    rcases cut with ⟨rfl, -⟩ | ⟨rfl, rfl, -⟩
    · have parts := cutSteps balanced trimmed inner
      obtain ⟨first, others, e, -⟩ := outerSteps_attribute name
      have some_step : outerSteps ('@' :: name) ≠ [] := e ▸ List.cons_ne_nil _ _
      rw [parts.whole, List.getLast?_append_of_ne_nil _ some_step] at last
      have only := outerSteps_attribute_eq last
      rw [parts.whole, only, List.dropLast_concat, parts.parent] at parent
      exact ⟨inner, parts.last.trans only, trim_eq_self_of_outerSteps (head?_before trimmed) parent⟩
    · refine ⟨inner, ?_, rfl⟩
      rw [← List.dropLast_append_getLast? _ last, ← parent, steps_nil]
      rfl
  · intro single
    by_cases cut : ∃ before name, IsCut p before name
    · obtain ⟨before, name, cut⟩ := cut
      obtain ⟨inner, only, clean⟩ := single before name cut
      refine agrees_of_steps_eq (parse_eq_attribute_iff.mpr cut) ?_
      rcases cut with ⟨rfl, -⟩ | ⟨rfl, rfl, -⟩
      · have parts := cutSteps balanced trimmed inner
        rw [parts.whole, parts.parent, clean, ← parts.last, only]
      · rw [only, steps_nil]
        rfl
    · exact agrees_of_element balanced trimmed fun before name h => cut ⟨before, name, h⟩

def codeType : Text := "//Item[Code/@kind='a']/Code/@type"

theorem codeType_agrees_with_steps :
    Path.balanced codeType = true ∧ Text.trim codeType = codeType ∧
    (∀ before name, IsCut codeType before name →
      Path.balanced name = true ∧ steps ('@' :: name) = ['@' :: name] ∧
        Text.trim before = before) ∧
    AgreesWithSteps codeType ∧
    steps codeType = ["Item[Code/@kind='a']".toList, "Code".toList, "@type".toList] := by
  have balanced : Path.balanced codeType = true := by decide
  have trimmed : Text.trim codeType = codeType := by decide
  have single : ∀ before name, IsCut codeType before name →
      Path.balanced name = true ∧ steps ('@' :: name) = ['@' :: name] ∧
        Text.trim before = before := by
    intro before name cut
    have parsed : parse codeType = .attribute "//Item[Code/@kind='a']/Code" "type" := by
      decide +kernel
    rw [← parse_eq_attribute_iff, parsed] at cut
    cases cut
    decide +kernel
  exact ⟨balanced, trimmed, single, (parse_agrees_with_steps_iff balanced trimmed).mpr single,
    by decide +kernel⟩

/-- A balanced path with clean ends that is not read as its steps say. -/
def ReadAgainstSteps (p : Text) : Prop :=
  Path.balanced p = true ∧ Text.trim p = p ∧ p.getLast? ≠ some '/' ∧ ¬ AgreesWithSteps p

theorem not_agrees_of_last {p : Text} (last : Text) (parsed : (parse p).isAttribute = true)
    (ends : (steps p).getLast? = some last) (other : last.head? ≠ some '@') :
    ¬ AgreesWithSteps p := by
  intro agrees
  obtain ⟨name, e⟩ := agrees.attribute_iff.mp parsed
  rw [ends] at e
  cases e
  exact other rfl

/-- A `/@` in a predicate, steps after an attribute, and white space before a slash. -/
theorem parse_disagrees_with_steps :
    ReadAgainstSteps "//Line[Code/@type='x']" ∧ ReadAgainstSteps "a/@b/c" ∧
      ReadAgainstSteps "@a/b" ∧ ReadAgainstSteps "a /@b" := by
  have predicate : ¬ AgreesWithSteps "//Line[Code/@type='x']" := by
    refine not_agrees_of_last "Line[Code/@type='x']" ?_ ?_ ?_ <;> decide +kernel
  have later : ¬ AgreesWithSteps "a/@b/c" := by
    refine not_agrees_of_last "c" ?_ ?_ ?_ <;> decide +kernel
  have first : ¬ AgreesWithSteps "@a/b" := by
    refine not_agrees_of_last "b" ?_ ?_ ?_ <;> decide +kernel
  have spaced : ¬ AgreesWithSteps "a /@b" := by
    intro agrees
    have parsed : parse "a /@b" = .attribute "a " "b" := by decide +kernel
    exact absurd (agrees.attribute_parts _ _ parsed).2 (by decide +kernel)
  exact ⟨⟨by decide, by decide, by decide, predicate⟩, ⟨by decide, by decide, by decide, later⟩,
    ⟨by decide, by decide, by decide, first⟩, ⟨by decide, by decide, by decide, spaced⟩⟩

end FieldMap.SourcePath
