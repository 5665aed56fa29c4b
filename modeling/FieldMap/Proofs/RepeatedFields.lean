import FieldMap.Proofs.ContextSearch
import FieldMap.Proofs.NormalPaths
import FieldMap.Proofs.SourceSteps
import FieldMap.Stylesheet.Sheet

/-!
Fields that repeat over their own source path. The loop of such a field runs over the element that the
path names, or whose attribute it names, and inside the loop the field reads the current node or its
attribute. That holds wherever the loop stands, since a value is read from the innermost loop.
-/

namespace FieldMap.SourcePath

open FieldMap.Path

/-- A path to an attribute: its last `/@` stands outside brackets, right after an element or at the
start, and what follows it is one name. -/
structure NamesAttribute (path before name : Text) : Prop where
  cut : path = before ++ "/@".toList ++ name
  balanced : Path.balanced path = true
  outside : depthAfter 0 before = 0
  single : '/' ∉ name
  clean : ∀ c ∈ before.getLast?, Text.isBlank c = false
  element : ∀ step ∈ (steps before).getLast?, step.head? ≠ some '@'

theorem outerSteps_of_not_mem {name : Text} (free : '/' ∉ name) :
    outerSteps ('@' :: name) = ['@' :: name] := by
  obtain ⟨first, others, e, later⟩ := outerSteps_attribute name
  have none : others = [] := by
    rw [List.eq_nil_iff_forall_not_mem]
    intro step hs
    exact free ((later step hs).subset List.mem_cons_self)
  have whole : (outerSteps ('@' :: name)).flatten = '@' :: name := by
    rw [flatten_outerSteps, flatten_outerPieces_of_not_mem (by simp [free])]
  rw [e, none] at whole ⊢
  simpa using whole

namespace NamesAttribute

variable {path before name : Text} (h : NamesAttribute path before name)

include h

theorem parse_eq : parse path = .attribute before name := by
  apply parse_eq_attribute_iff.mpr
  left
  refine ⟨h.cut, fun inside => ?_⟩
  exact h.single (inside.subset (by decide))

theorem balanced_name : Path.balanced name = true := by
  have whole := h.balanced
  rw [h.cut] at whole
  have rest := balancedFrom_append whole
  rw [depthAfter_append, h.outside] at rest
  exact rest

theorem steps_eq (trimmed : Text.trim path = path) : steps path = steps before ++ ['@' :: name] := by
  have balanced := h.balanced
  rw [h.cut] at trimmed balanced
  have parts := cutSteps balanced trimmed h.balanced_name
  have clean : Text.trim before = before := Text.trim_eq_self (head?_before trimmed) h.clean
  rw [h.cut, parts.whole, parts.parent, clean, outerSteps_of_not_mem h.single]

end NamesAttribute

end FieldMap.SourcePath

namespace FieldMap.Path

theorem not_standsFor_attribute {c name : Text} (h : c.head? ≠ some '@') :
    ¬ StandsFor c ('@' :: name) := by
  rintro (same | ⟨_, other⟩)
  · apply h
    rw [← head?_stepName, same, head?_stepName]
    rfl
  · exact other rfl

section Attribute

variable {path context name : Text} {before : List Text} (some_step : steps context ≠ [])
  (added : steps path = before ++ ['@' :: name])
  (element : ∀ step ∈ (steps context).getLast?, step.head? ≠ some '@')

include some_step added element

theorem Admissible.before_attribute {offset : Nat} (h : Admissible path context offset) :
    offset + (steps context).length ≤ before.length := by
  -- The context does not reach to the attribute at the end of a path: its last step would have to
  -- stand for the attribute.
  have within := h.within
  have length : (steps path).length = before.length + 1 := by simp [added]
  have positive : 0 < (steps context).length := List.length_pos_of_ne_nil some_step
  by_contra reaches
  have stands := h.names ((steps context).length - 1) (by omega)
  have index : offset + ((steps context).length - 1) = before.length := by omega
  have target : (steps path)[offset + ((steps context).length - 1)]? = some ('@' :: name) := by
    rw [added, index, List.getElem?_concat_length]
  obtain ⟨_, ends⟩ := List.getElem?_eq_some_iff.mp target
  rw [ends] at stands
  refine not_standsFor_attribute (element _ ?_) stands
  rw [Option.mem_def, List.getLast?_eq_getElem?, List.getElem?_eq_getElem]

theorem relativeTo_attribute (parent : before = steps context) :
    relativeTo path context = some ('@' :: name) := by
  have here : Admissible path context 0 := by
    refine (admissible_iff some_step).mpr ⟨windowAt_zero_of_isPrefix ?_, fun _ => rfl⟩
    rw [added, parent]
    exact List.prefix_append _ _
  have last : IsGreatest {offset | Admissible path context offset} 0 := by
    refine ⟨here, fun offset admissible => ?_⟩
    have bound := Admissible.before_attribute some_step added element admissible
    rw [parent] at bound
    omega
  rw [relativeTo_eq_some_of some_step last, added, parent, Nat.zero_add, List.drop_left, remainder,
    if_neg (List.cons_ne_nil _ _), List.intercalate_singleton]

end Attribute

end FieldMap.Path

namespace FieldMap.Stylesheet

open FieldMap.Path (steps relativeTo)
open SourcePath (NamesAttribute IsCut parse_eq_element)

section Select

variable {m : Mapping} (normal : Path.IsNormal m.sourcePath) (alone : m.forEach = none)

include normal alone

theorem valueSelect_element (free : ¬ "/@".toList <:+: m.sourcePath)
    (some_step : steps m.sourcePath ≠ []) :
    valueSelect (SourcePath.parse m.sourcePath) (some (repetitionPath m)) = ['.'] := by
  have uncut : ∀ before name, ¬ IsCut m.sourcePath before name := by
    rintro before name (⟨cut, _⟩ | ⟨cut, _⟩)
    · exact free ⟨before, name, cut.symm⟩
    · have start := normal.start
      rw [cut] at start
      simp at start
  have parsed := parse_eq_element uncut
  have path : repetitionPath m = m.sourcePath := by simp only [repetitionPath, alone, parsed]
  rw [path, parsed, valueSelect, Option.bind_some, SourcePath.full, Path.relativeTo_self some_step]
  rfl

theorem valueSelect_attribute {before name : Text} (h : NamesAttribute m.sourcePath before name) :
    valueSelect (SourcePath.parse m.sourcePath) (some (repetitionPath m)) = '@' :: name := by
  have added := h.steps_eq normal.trimmed
  have path : repetitionPath m = if before = [] then ['.'] else before := by
    simp only [repetitionPath, alone, h.parse_eq]
  have seen : relativeTo m.sourcePath (repetitionPath m) = none ∨
      relativeTo m.sourcePath (repetitionPath m) = some ('@' :: name) := by
    rw [path]
    by_cases top : before = []
    · -- The loop is over the current node, of which a path from the root says nothing.
      have dot : steps ['.'] = [['.']] := by decide +kernel
      rw [if_pos top]
      left
      refine Path.relativeTo_eq_none_of (by simp [dot]) fun offset admissible => ?_
      have bound := admissible.before_attribute (by simp [dot]) added (by simp [dot])
      rw [top, SourcePath.steps_nil, dot] at bound
      simp at bound
    · rw [if_neg top]
      by_cases empty : steps before = []
      · exact Or.inl (Path.relativeTo_of_no_steps empty _)
      · exact Or.inr (Path.relativeTo_attribute empty added h.element rfl)
  have full : (SourcePath.attribute before name).full = m.sourcePath := h.cut.symm
  rw [h.parse_eq, valueSelect, Option.bind_some, full]
  rcases seen with unseen | seen
  · rw [unseen]
    rfl
  · rw [seen]
    rfl

end Select

theorem loopPath?_of_occurs {m : Mapping} (h : 1 < m.occurs) :
    loopPath? m = some (repetitionPath m) := by
  have repeats : m.repeats = true := by
    have more : 1 < m.occurrences := by
      rw [Mapping.occurrences]
      omega
    simp [Mapping.repeats, more]
  rw [loopPath?, if_pos repeats]

/-- A field that occurs more than once is written inside a loop of its own and reads the current node
of that loop, or the attribute of it that its path names, whatever loops stand around it. -/
theorem repeated_field_reads_own_node {fields : List Mapping} {m : Mapping}
    (prepared : m ∈ (Prepared.ofFields fields).mappings) (reads : m.valueType = .xpath)
    (repeated : 1 < m.occurs) (alone : m.forEach = none) :
    (∀ context body, looped (loopPath? m) context body =
      [.block (instruction "xsl:for-each" "select" (loopSelect (repetitionPath m) context))
        (body (some (repetitionPath m)))]) ∧
    ∀ loops : List Text,
      (¬ "/@".toList <:+: m.sourcePath → steps m.sourcePath ≠ [] →
        valueSource m (loops ++ [repetitionPath m]).getLast? = .select ['.']) ∧
      ∀ before name, NamesAttribute m.sourcePath before name →
        valueSource m (loops ++ [repetitionPath m]).getLast? = .select ('@' :: name) := by
  have normal := (Prepared.isPrepared_of_mem prepared).source
  refine ⟨?_, ?_⟩
  · intro context body
    rw [loopPath?_of_occurs repeated]
    rfl
  · intro loops
    rw [List.getLast?_concat]
    simp only [valueSource, reads]
    refine ⟨?_, ?_⟩
    · intro free some_step
      rw [valueSelect_element normal alone free some_step]
    · intro before name h
      rw [valueSelect_attribute normal alone h]

def tagMapping : Mapping where
  sourcePath := "//Item/Tag"
  targetName := "Tag"
  occurs := 3

def kindMapping : Mapping where
  sourcePath := "//*[Code/@kind='a']/*/@kind"
  targetName := "Kind"
  occurs := 2

theorem repeated_fields_read_own_node :
    (tagMapping ∈ (Prepared.ofFields [tagMapping, kindMapping]).mappings ∧
      ¬ "/@".toList <:+: tagMapping.sourcePath ∧ steps tagMapping.sourcePath ≠ [] ∧
      valueSource tagMapping (["//Item".toList] ++ [repetitionPath tagMapping]).getLast? =
        .select ['.']) ∧
    kindMapping ∈ (Prepared.ofFields [tagMapping, kindMapping]).mappings ∧
      NamesAttribute kindMapping.sourcePath "//*[Code/@kind='a']/*" "kind" ∧
      repetitionPath kindMapping = "//*[Code/@kind='a']/*".toList ∧
      valueSource kindMapping (["//Item".toList] ++ [repetitionPath kindMapping]).getLast? =
        .select "@kind".toList := by
  have tag : tagMapping ∈ (Prepared.ofFields [tagMapping, kindMapping]).mappings := by decide +kernel
  have kind : kindMapping ∈ (Prepared.ofFields [tagMapping, kindMapping]).mappings := by
    decide +kernel
  have free : ¬ "/@".toList <:+: tagMapping.sourcePath := by decide
  have some_step : steps tagMapping.sourcePath ≠ [] := by decide +kernel
  have names : NamesAttribute kindMapping.sourcePath "//*[Code/@kind='a']/*" "kind" := by
    have last : (steps "//*[Code/@kind='a']/*").getLast? = some ['*'] := by decide +kernel
    refine ⟨rfl, by decide, by decide, by decide, ?_, ?_⟩
    · intro c hc
      cases hc
      decide
    · rw [last]
      intro step hs
      cases hs
      decide
  have element := (repeated_field_reads_own_node tag rfl (by decide) rfl).2 ["//Item"]
  have attr := (repeated_field_reads_own_node kind rfl (by decide) rfl).2 ["//Item"]
  exact ⟨⟨tag, free, some_step, element.1 free some_step⟩, kind, names, by decide +kernel,
    attr.2 _ _ names⟩

end FieldMap.Stylesheet
