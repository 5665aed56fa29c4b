import FieldMap.Proofs.NormalPaths
import FieldMap.Proofs.SourceSteps
import FieldMap.Stylesheet.FlatSheet

/-!
How the sheets read a field. Sheets with a tree put the path of a field together from its parts, flat
sheets take it as it is. For prepared mappings this comes to the same, since their paths do not
begin with an attribute; the two differ only where an attribute is read outside of the context.
-/

namespace FieldMap.SourcePath

open FieldMap.Path (IsNormal)

section Normal

variable {p before name : Text} (normal : IsNormal p)

include normal

theorem isCut_iff_of_isNormal :
    IsCut p before name ↔ p = before ++ "/@".toList ++ name ∧ ¬ "/@".toList <:+: name := by
  refine or_iff_left ?_
  rintro ⟨bare, -⟩
  have start := normal.start
  rw [bare] at start
  simp at start

theorem parse_cases :
    (∃ before name, p = before ++ "/@".toList ++ name ∧ ¬ "/@".toList <:+: name ∧
      parse p = .attribute before name) ∨
    ∃ parent name, parse p = .element parent name p := by
  by_cases cut : ∃ before name, IsCut p before name
  · obtain ⟨before, name, cut⟩ := cut
    obtain ⟨whole, last⟩ := (isCut_iff_of_isNormal normal).mp cut
    exact Or.inl ⟨before, name, whole, last, parse_eq_attribute_iff.mpr cut⟩
  · have uncut : ∀ before name, ¬ IsCut p before name := by
      intro before name h
      exact cut ⟨before, name, h⟩
    exact Or.inr ⟨_, _, parse_eq_element uncut⟩

theorem full_parse : (parse p).full = p := by
  rcases parse_cases normal with ⟨before, name, whole, -, parsed⟩ | ⟨parent, name, parsed⟩
  · rw [parsed]
    exact whole.symm
  · rw [parsed]
    rfl

end Normal

end FieldMap.SourcePath

namespace FieldMap.Stylesheet

open FieldMap.Path (relativeTo IsNormal)
open FlatSheet (recordSelect)

section Select

variable {m : Mapping} (normal : IsNormal m.sourcePath) (context : Text)

include normal

theorem valueSelect_eq_getD :
    valueSelect (SourcePath.parse m.sourcePath) (some context) =
      (relativeTo m.sourcePath context).getD (SourcePath.parse m.sourcePath).valueRef := by
  rw [valueSelect, Option.bind_some, SourcePath.full_parse normal]

/-- Both expressions are the path as seen from the context; where it is not seen from there, they
are what each kind of sheet falls back to. -/
theorem valueSelect_eq_recordSelect_iff :
    valueSelect (SourcePath.parse m.sourcePath) (some context) = recordSelect m context none ↔
      (relativeTo m.sourcePath context).isSome = true ∨
        (SourcePath.parse m.sourcePath).isAttribute = false := by
  rw [valueSelect_eq_getD normal, recordSelect]
  cases seen : relativeTo m.sourcePath context with
  | some view => simp
  | none =>
    rcases SourcePath.parse_cases normal with ⟨before, name, -, -, parsed⟩ | ⟨parent, name, parsed⟩
    · -- An attribute alone begins with a character that no path in normal form begins with.
      have other : '@' :: name ≠ m.sourcePath := by
        intro same
        have start := normal.start
        rw [← same] at start
        simp at start
      simpa [parsed, SourcePath.valueRef, SourcePath.isAttribute] using other
    · simp [parsed, SourcePath.valueRef, SourcePath.isAttribute]

end Select

/-- A prepared mapping is read by the same expression inside a loop of a tree and in a record of a
flat sheet exactly if its path is seen from the context or reads an element. An attribute that is
not seen from there is read through its full path in a record, and as the attribute alone, by the
name after the last `/@`, in a tree. -/
theorem field_expressions_agree {fields : List Mapping} {m : Mapping}
    (prepared : m ∈ (Prepared.ofFields fields).mappings) (loops : List Text) (context : Text) :
    (valueSelect (SourcePath.parse m.sourcePath) (loops ++ [context]).getLast? =
        recordSelect m context none ↔
      (relativeTo m.sourcePath context).isSome = true ∨
        (SourcePath.parse m.sourcePath).isAttribute = false) ∧
    ((SourcePath.parse m.sourcePath).isAttribute = true → relativeTo m.sourcePath context = none →
      recordSelect m context none = m.sourcePath ∧
      ∃ before name, m.sourcePath = before ++ "/@".toList ++ name ∧ ¬ "/@".toList <:+: name ∧
        valueSelect (SourcePath.parse m.sourcePath) (loops ++ [context]).getLast? = '@' :: name) := by
  have normal := (Prepared.isPrepared_of_mem prepared).source
  rw [List.getLast?_concat]
  refine ⟨valueSelect_eq_recordSelect_iff normal context, ?_⟩
  intro reads unseen
  rcases SourcePath.parse_cases normal with ⟨before, name, whole, last, parsed⟩ | ⟨parent, name, parsed⟩
  · refine ⟨?_, before, name, whole, last, ?_⟩
    · rw [recordSelect, unseen, Option.getD_none]
    · rw [valueSelect_eq_getD normal, unseen, parsed]
      rfl
  · rw [parsed] at reads
    cases reads

/-- An attribute after a predicate with a `/@` of its own. -/
def unitMapping : Mapping where
  sourcePath := "//Line[Price/@kind='net']/@unit"
  targetName := "Unit"

theorem unitMapping_expressions :
    unitMapping ∈ (Prepared.ofFields [unitMapping]).mappings ∧
    relativeTo unitMapping.sourcePath "//Line" = some "@unit".toList ∧
    valueSelect (SourcePath.parse unitMapping.sourcePath)
        (["//Order".toList] ++ ["//Line".toList]).getLast? =
      recordSelect unitMapping "//Line" none ∧
    relativeTo unitMapping.sourcePath "//Total" = none ∧
    recordSelect unitMapping "//Total" none = unitMapping.sourcePath ∧
    ∃ before name, unitMapping.sourcePath = before ++ "/@".toList ++ name ∧
      ¬ "/@".toList <:+: name ∧
      valueSelect (SourcePath.parse unitMapping.sourcePath)
        (["//Order".toList] ++ ["//Total".toList]).getLast? = '@' :: name := by
  have prepared : unitMapping ∈ (Prepared.ofFields [unitMapping]).mappings := by decide +kernel
  have seen : relativeTo unitMapping.sourcePath "//Line" = some "@unit".toList := by decide +kernel
  have unseen : relativeTo unitMapping.sourcePath "//Total" = none := by decide +kernel
  have inside := (field_expressions_agree prepared ["//Order"] "//Line").1
  have outside := (field_expressions_agree prepared ["//Order"] "//Total").2
  exact ⟨prepared, seen, inside.mpr (Or.inl (by rw [seen]; rfl)), unseen,
    outside (by decide +kernel) unseen⟩

end FieldMap.Stylesheet
