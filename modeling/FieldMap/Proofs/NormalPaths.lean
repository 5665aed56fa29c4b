import FieldMap.Proofs.DepthScanner
import FieldMap.Proofs.SkippedRows
import FieldMap.Proofs.XmlCharacters

/-!
Paths in normal form. Bringing a path to normal form a second time changes nothing: no rewriting
makes room for another one. So prepared rows are prepared for good, and a table of prepared rows
gives the stylesheet of the table they come from.
-/

namespace FieldMap.Path

/-- Written as a stylesheet reads it: from the root or a wildcard on, without white space around it
and without a dot that separates two steps. -/
structure IsNormal (t : Text) : Prop where
  start : t.head? = some '/' ∨ t.head? = some '*'
  trimmed : Text.trim t = t
  separated : separateDots none 0 t = t

/-- What a character becomes by its neighbours: a dot outside brackets, after the end of a step and
before the beginning of one, becomes a slash. -/
def separator (before : Option Char) (depth : Nat) (c : Char) (next : Option Char) : Char :=
  if c = '.' ∧ depth = 0 ∧ before.any endsStep = true ∧ next.any beginsStep = true then '/' else c

section Dots

variable {before other next : Option Char} {depth : Nat} {c : Char} {t : Text}

theorem separateDots_cons : separateDots before depth (c :: t) =
    separator before depth c t.head? :: separateDots (some c) (depthStep depth c) t := by
  rw [separateDots, separator]
  by_cases opens : c = '['
  · subst opens
    rfl
  · by_cases closes : c = ']'
    · subst closes
      rfl
    · rw [if_neg opens, if_neg closes, depthStep_other opens closes]
      simp only [Bool.and_eq_true, decide_eq_true_eq, beq_iff_eq, and_assoc]
      split <;> rfl

theorem separator_eq_or (before : Option Char) (depth : Nat) (c : Char) (next : Option Char) :
    separator before depth c next = c ∨ c = '.' ∧ separator before depth c next = '/' := by
  unfold separator
  split
  · next dot => exact Or.inr ⟨dot.1, rfl⟩
  · exact Or.inl rfl

theorem separator_alike :
    endsStep (separator before depth c next) = endsStep c ∧
      beginsStep (separator before depth c next) = beginsStep c ∧
      depthStep depth (separator before depth c next) = depthStep depth c := by
  rcases separator_eq_or before depth c next with same | ⟨rfl, slash⟩
  · rw [same]
    exact ⟨rfl, rfl, rfl⟩
  · rw [slash]
    exact ⟨by decide, by decide, rfl⟩

theorem beginsStep_separateDots :
    (separateDots before depth t).head?.any beginsStep = t.head?.any beginsStep := by
  cases t with
  | nil => rfl
  | cons c cs =>
    rw [separateDots_cons]
    exact separator_alike.2.1

theorem separateDots_separateDots (same : other.any endsStep = before.any endsStep) :
    separateDots other depth (separateDots before depth t) = separateDots before depth t := by
  -- A dot that is left by a first pass has neighbours in a second one that are alike.
  induction t generalizing before other depth with
  | nil => rfl
  | cons c cs ih =>
    have first : separator other depth (separator before depth c cs.head?)
        (separateDots (some c) (depthStep depth c) cs).head? =
          separator before depth c cs.head? := by
      simp only [separator, beginsStep_separateDots, same]
      grind
    have rest : separateDots (some (separator before depth c cs.head?)) (depthStep depth c)
        (separateDots (some c) (depthStep depth c) cs) =
          separateDots (some c) (depthStep depth c) cs := ih separator_alike.1
    rw [separateDots_cons, separateDots_cons, first, separator_alike.2.2, rest]

theorem getLast?_separateDots : (separateDots before depth t).getLast? = t.getLast? := by
  induction t generalizing before depth with
  | nil => rfl
  | cons c cs ih =>
    rw [separateDots_cons]
    cases cs with
    | nil => simp [separator, separateDots]
    | cons d ds => rw [separateDots_cons, List.getLast?_cons_cons, ← separateDots_cons, ih,
        List.getLast?_cons_cons]

end Dots

theorem dropFileName_of_start {t : Text} (start : t.head? = some '/' ∨ t.head? = some '*') :
    dropFileName t = t := by
  unfold dropFileName
  split
  · rfl
  · refine if_neg ?_
    rcases start with slash | wild
    · obtain ⟨rest, rfl⟩ := List.head?_eq_some_iff.mp slash
      simp [isFileName]
    · obtain ⟨rest, rfl⟩ := List.head?_eq_some_iff.mp wild
      simp [isFileName]

theorem getLast?_cleaned {raw : Text} {c : Char} (h : c ∈ (cleaned raw).getLast?) :
    Text.isBlank c = false := by
  rw [cleaned, getLast?_separateDots] at h
  obtain ⟨front, whole⟩ := dropFileName_isSuffix (Text.trim raw)
  refine Text.getLast?_trim (t := raw) ?_
  rw [← whole, List.getLast?_append, Option.mem_def.mp h]
  rfl

section Anchored

variable {t : Text}

theorem head?_anchor : (anchor t).head? = some '/' ∨ (anchor t).head? = some '*' := by
  unfold anchor
  split
  · exact Or.inl rfl
  · split
    · next start => simpa using start
    · exact Or.inl rfl

theorem anchor_of_start (start : t.head? = some '/' ∨ t.head? = some '*') : anchor t = t := by
  cases t with
  | nil => simp at start
  | cons c cs => simpa [anchor] using fun slash wild => absurd start (by simp [slash, wild])

theorem anchor_eq_or : anchor t = t ∨ anchor t = '/' :: '/' :: t := by
  unfold anchor
  split
  · exact Or.inr rfl
  · split
    · exact Or.inl rfl
    · exact Or.inr rfl

theorem balanced_anchor : balanced (anchor t) = balanced t := by
  rcases anchor_eq_or (t := t) with same | slashes
  · rw [same]
  · rw [slashes]
    exact balanced_congr (by simp)

end Anchored

theorem isNormal_anchor_cleaned (raw : Text) : IsNormal (anchor (cleaned raw)) := by
  have visible : ∀ c, c = '/' ∨ c = '*' → Text.isBlank c = false := by
    rintro c (rfl | rfl) <;> decide
  refine ⟨head?_anchor, Text.trim_eq_self ?_ ?_, ?_⟩
  · intro c first
    refine visible c ?_
    have start := head?_anchor (t := cleaned raw)
    rw [Option.mem_def.mp first] at start
    simpa using start
  · intro c last
    rcases anchor_eq_or (t := cleaned raw) with same | slashes
    · rw [same] at last
      exact getLast?_cleaned last
    · rw [slashes] at last
      cases rest : cleaned raw with
      | nil =>
        rw [rest] at last
        exact visible c (Or.inl (Option.some_inj.mp last.symm))
      | cons d ds =>
        rw [rest, List.getLast?_cons_cons, List.getLast?_cons_cons, ← rest] at last
        exact getLast?_cleaned last
  · rcases anchor_eq_or (t := cleaned raw) with same | slashes
    · rw [same]
      exact separateDots_separateDots rfl
    · have second : separateDots (some '/') 0 (cleaned raw) = cleaned raw :=
        separateDots_separateDots (by decide)
      rw [slashes]
      simp only [separateDots]
      simpa using second

theorem normalize_of_isNormal {t : Text} (h : IsNormal t) :
    normalize t = ⟨t, if balanced t then [] else [.unbalancedBrackets t]⟩ := by
  have same : cleaned t = t := by
    rw [cleaned, h.trimmed, dropFileName_of_start h.start, h.separated]
  have given : Text.trim t ≠ [] := by
    rw [h.trimmed]
    rintro rfl
    simpa using h.start
  have legal : issues t = if balanced t then [] else [.unbalancedBrackets t] := by
    obtain ⟨c, cs, rfl⟩ := List.exists_cons_of_ne_nil (h.trimmed ▸ given)
    have starts : mayStart c = true := by
      rcases h.start with first | first <;> cases first <;> decide
    simp [issues, starts]
  rw [normalize, if_neg given, same, anchor_of_start h.start, legal]

theorem isNormal_normalize {raw : Text} (h : ¬ Text.allBlank raw = true) :
    IsNormal (normalize raw).path := by
  rw [normalize, if_neg (mt (Text.trim_eq_nil_iff raw).mp h)]
  exact isNormal_anchor_cleaned raw

theorem normalize_of_blank {raw : Text} (h : Text.allBlank raw = true) :
    normalize raw = ⟨[], []⟩ := by
  rw [normalize, if_pos ((Text.trim_eq_nil_iff raw).mpr h)]

theorem normalize_normalize (raw : Text) :
    (normalize (normalize raw).path).path = (normalize raw).path := by
  by_cases blank : Text.allBlank raw = true
  · rw [normalize_of_blank blank]
    rfl
  · rw [normalize_of_isNormal (isNormal_normalize blank)]

theorem normalize_path_eq_nil_iff (raw : Text) :
    (normalize raw).path = [] ↔ Text.allBlank raw = true := by
  refine ⟨fun empty => ?_, fun blank => by rw [normalize_of_blank blank]⟩
  by_contra visible
  have start := (isNormal_normalize visible).start
  rw [empty] at start
  simp at start

theorem unbalanced_mem_issues {t : Text} :
    (∃ path, Issue.unbalancedBrackets path ∈ issues t) ↔ balanced t = false := by
  cases t with
  | nil => simp [issues, balanced, balancedFrom]
  | cons c cs =>
    by_cases closed : balanced (c :: cs) = true <;> by_cases start : mayStart c = true <;>
      simp [issues, closed, start]

theorem unbalanced_normalize_iff (raw : Text) :
    (∃ path, Issue.unbalancedBrackets path ∈ (normalize (normalize raw).path).issues) ↔
      ∃ path, Issue.unbalancedBrackets path ∈ (normalize raw).issues := by
  by_cases blank : Text.allBlank raw = true
  · rw [normalize_of_blank blank]
    rfl
  · have given := mt (Text.trim_eq_nil_iff raw).mp blank
    rw [normalize_of_isNormal (isNormal_normalize blank), normalize, if_neg given, balanced_anchor,
      unbalanced_mem_issues]
    cases closed : balanced (cleaned raw) <;> simp

theorem invalidStart_not_mem_normalize (raw p : Text) (found : Char) :
    Issue.invalidStart p found ∉ (normalize (normalize raw).path).issues := by
  by_cases blank : Text.allBlank raw = true
  · rw [normalize_of_blank blank]
    exact List.not_mem_nil
  · rw [normalize_of_isNormal (isNormal_normalize blank)]
    split <;> simp

end FieldMap.Path

namespace FieldMap

open FieldMap.Path (IsNormal)

structure Mapping.IsPrepared (m : Mapping) : Prop where
  usable : m.fault? = none
  source : IsNormal m.sourcePath
  loop : ∀ path, m.forEach = some path → m.forEachPath = some path ∧ IsNormal path

theorem Path.IsNormal.not_blank {t : Text} (h : IsNormal t) : ¬ Text.allBlank t = true := by
  rw [← Text.trim_eq_nil_iff, h.trimmed]
  rintro rfl
  simpa using h.start

theorem Path.IsNormal.nonBlank? {t : Text} (h : IsNormal t) : Text.nonBlank? t = some t := by
  have given : t ≠ [] := by
    rintro rfl
    simpa using h.start
  simp only [Text.nonBlank?, h.trimmed, if_neg given]

theorem Mapping.not_blank_of_forEach {m : Mapping} {path : Text} (h : m.forEach = some path) :
    ¬ Text.allBlank path = true := by
  obtain ⟨given, -, trimmed⟩ := Option.bind_eq_some_iff.mp h
  simp only [Text.nonBlank?, Option.ite_none_left_eq_some, Option.some_inj] at trimmed
  obtain ⟨visible, rfl⟩ := trimmed
  rwa [← Text.trim_eq_nil_iff, Text.trim_trim]

theorem Mapping.usable_of_isNormal {f m : Mapping} (h : f.fault? = none)
    (source : IsNormal m.sourcePath) (name : m.targetName = f.targetName) : m.fault? = none := by
  have named : ¬ Text.allBlank m.targetName = true := by
    intro blank
    have unusable := Mapping.isSome_fault?_iff.mpr (Or.inr (name ▸ blank))
    rw [h] at unusable
    cases unusable
  rw [Mapping.fault?, if_neg source.not_blank, if_neg named]

namespace Prepared

theorem row_of_isPrepared {m : Mapping} (h : m.IsPrepared) (number : Nat) :
    (row number m).1 = some m := by
  unfold row
  rw [h.usable, Path.normalize_of_isNormal h.source]
  cases loop : m.forEach with
  | none => rfl
  | some path =>
    obtain ⟨given, normal⟩ := h.loop path loop
    simp only [Path.normalize_of_isNormal normal, ← given]

theorem isPrepared_of_row {number : Nat} {f m : Mapping} (h : (row number f).1 = some m) :
    m.IsPrepared := by
  unfold row at h
  split at h
  · cases h
  · next usable =>
    have given : ¬ Text.allBlank f.sourcePath = true := by
      intro blank
      have unusable := Mapping.isSome_fault?_iff.mpr (Or.inl blank)
      rw [usable] at unusable
      cases unusable
    have source := Path.isNormal_normalize given
    split at h
    · next loop =>
      cases h
      refine ⟨Mapping.usable_of_isNormal usable source rfl, source, fun path some_path => ?_⟩
      have given : f.forEach = some path := some_path
      rw [loop] at given
      cases given
    · next path loop =>
      cases h
      have normal := Path.isNormal_normalize (Mapping.not_blank_of_forEach loop)
      refine ⟨Mapping.usable_of_isNormal usable source rfl, source, fun other some_other => ?_⟩
      obtain rfl : (Path.normalize path).path = other :=
        Option.some_inj.mp (normal.nonBlank?.symm.trans some_other)
      exact ⟨rfl, normal⟩

theorem isPrepared_of_mem {fields : List Mapping} {m : Mapping}
    (h : m ∈ (ofFields fields).mappings) : m.IsPrepared := by
  obtain ⟨r, member, made⟩ := List.mem_filterMap.mp h
  rw [rows_eq] at member
  obtain ⟨x, -, rfl⟩ := List.mem_map.mp member
  exact isPrepared_of_row made

section Again

variable {ms : List Mapping} (h : ∀ m ∈ ms, m.IsPrepared)

include h

theorem mappings_of_isPrepared : (ofFields ms).mappings = ms := by
  have kept : ∀ number, (rows number ms).filterMap (·.1) = ms := by
    induction ms with
    | nil => exact fun _ => rfl
    | cons m ms ih =>
      intro number
      rw [List.forall_mem_cons] at h
      rw [rows, List.filterMap_cons_some (row_of_isPrepared h.1 number), ih h.2]
  exact kept 1

theorem skipped_of_isPrepared : (ofFields ms).skipped = 0 := by
  rw [skipped_eq, List.countP_eq_zero]
  intro m member
  simp [(h m member).usable]

end Again

end Prepared

/-- A path in normal form stays as it is, and so do prepared rows and their stylesheet. -/
theorem normalize_is_stable (raw : Text) (format : OutputFormat) (set : MappingSet)
    (options : Options) :
    let path := (Path.normalize raw).path
    let again := Path.normalize path
    let prepared := Prepared.ofFields set.fields
    again.path = path ∧
    (path = [] ↔ Text.allBlank raw = true) ∧
    (path ≠ [] → path.head? = some '/' ∨ path.head? = some '*') ∧
    ((∃ p, Path.Issue.unbalancedBrackets p ∈ again.issues) ↔
      ∃ p, Path.Issue.unbalancedBrackets p ∈ (Path.normalize raw).issues) ∧
    (∀ p found, Path.Issue.invalidStart p found ∉ again.issues) ∧
    (Prepared.ofFields prepared.mappings).mappings = prepared.mappings ∧
    (Prepared.ofFields prepared.mappings).skipped = 0 ∧
    (generate format { set with fields := prepared.mappings } options).stylesheet =
      (generate format set options).stylesheet := by
  intro path again prepared
  have ready : ∀ m ∈ prepared.mappings, m.IsPrepared := fun m => Prepared.isPrepared_of_mem
  have same := Prepared.mappings_of_isPrepared ready
  refine ⟨Path.normalize_normalize raw, Path.normalize_path_eq_nil_iff raw, ?_,
    Path.unbalanced_normalize_iff raw, Path.invalidStart_not_mem_normalize raw, same,
    Prepared.skipped_of_isPrepared ready, ?_⟩
  · intro given
    exact (Path.isNormal_normalize (mt (Path.normalize_path_eq_nil_iff raw).mpr given)).start
  · simp only [generate, emit_with_fields]
    rw [same]

/-- A file name, dots inside and outside a predicate, and white space. -/
def employeePath : Text := " staff.xml/Company.Employee[Pay.Net/Sum > 1.5].@id "

def employeeTable : MappingSet where
  fields := [
    { sourcePath := employeePath, targetName := "Id", forEachPath := some "Staff.xml/Unit[1" },
    { sourcePath := " ", targetName := "Name" }]

theorem employeeTable_stable :
    (Path.normalize employeePath).path = "//Company/Employee[Pay.Net/Sum > 1.5]/@id".toList ∧
      (Path.normalize (Path.normalize employeePath).path).path =
        (Path.normalize employeePath).path ∧
      (Prepared.ofFields employeeTable.fields).skipped = 1 ∧
      (Prepared.ofFields (Prepared.ofFields employeeTable.fields).mappings).skipped = 0 ∧
      (generate .xml { employeeTable with
        fields := (Prepared.ofFields employeeTable.fields).mappings } {}).stylesheet =
        (generate .xml employeeTable {}).stylesheet := by
  obtain ⟨again, -, -, -, -, -, skipped, sheet⟩ :=
    normalize_is_stable employeePath .xml employeeTable {}
  exact ⟨by decide +kernel, again, by decide +kernel, skipped, sheet⟩

end FieldMap
