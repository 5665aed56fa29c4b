import Mathlib.Data.List.Basic
import FieldMap.Generation
import FieldMap.Proofs.Insertions

/-!
Rows that cannot be used. A row without a source path or without a target name is skipped before
anything is made of the table, so it changes neither the stylesheet nor what is said of the other
rows. Each such row is named in one diagnostic by its number in the table.
-/

namespace FieldMap

/-- A mapping without a source path or without a target name. -/
def Mapping.Unusable (m : Mapping) : Prop :=
  Text.allBlank m.sourcePath = true ∨ Text.allBlank m.targetName = true

theorem Mapping.isSome_fault?_iff {m : Mapping} : m.fault?.isSome = true ↔ m.Unusable := by
  unfold Mapping.fault? Mapping.Unusable
  split
  · next noSource => simp [noSource]
  · next source =>
    split
    · next noTarget => simp [noTarget]
    · next target => simp [source, target]

def reportsSkip (d : Diagnostic) : Bool :=
  d.kind = .malformedInput && decide (("field #" : Text) <+: d.message)

namespace Prepared

theorem rows_eq (number : Nat) (fields : List Mapping) :
    rows number fields = (fields.zipIdx number).map fun x => row x.2 x.1 := by
  induction fields generalizing number with
  | nil => rfl
  | cons m fields ih => rw [rows, ih, List.zipIdx_cons, List.map_cons]

theorem row_of_fault {m : Mapping} {fault : Mapping.Fault} (h : m.fault? = some fault)
    (number : Nat) : row number m = (none, [skipDiagnostic number fault]) := by
  unfold row
  rw [h]

theorem row_of_usable {m : Mapping} (h : m.fault? = none) (number other : Nat) :
    row number m = row other m := by
  unfold row
  rw [h]

theorem isNone_row (number : Nat) (m : Mapping) : (row number m).1.isNone = m.fault?.isSome := by
  unfold row
  split
  · next fault e => rw [e]; rfl
  · next e =>
    rw [e]
    split <;> rfl

theorem reportsSkip_skipDiagnostic (number : Nat) (fault : Mapping.Fault) :
    reportsSkip (skipDiagnostic number fault) = true := by
  have starts : ("field #" : Text) <+: (skipDiagnostic number fault).message := by
    unfold skipDiagnostic Diagnostic.warning
    simp only [List.append_assoc]
    exact List.prefix_append _ _
  exact Bool.and_eq_true_iff.mpr ⟨rfl, decide_eq_true starts⟩

theorem not_reportsSkip_issue (path : Path.Normalized) :
    ∀ d ∈ issueDiagnostics path, ¬ reportsSkip d := by
  intro d hd
  obtain ⟨issue, _, rfl⟩ := List.mem_map.mp hd
  exact Bool.false_ne_true

theorem not_reportsSkip_row {m : Mapping} (h : m.fault? = none) (number : Nat) :
    ∀ d ∈ (row number m).2, ¬ reportsSkip d := by
  intro d hd
  unfold row at hd
  split at hd
  · next fault e =>
    rw [h] at e
    cases e
  · split at hd
    · exact not_reportsSkip_issue _ d hd
    · exact (List.mem_append.mp hd).elim (not_reportsSkip_issue _ d) (not_reportsSkip_issue _ d)

theorem filter_reportsSkip_row (number : Nat) (m : Mapping) :
    (row number m).2.filter reportsSkip = (m.fault?.map (skipDiagnostic number)).toList := by
  cases fault : m.fault? with
  | none => exact List.filter_eq_nil_iff.mpr (not_reportsSkip_row fault number)
  | some f =>
    rw [row_of_fault fault]
    exact List.filter_eq_self.mpr (by simp [reportsSkip_skipDiagnostic])

/-- What is gathered from the rows, without their numbers and nothing from unusable ones, is the
same with unusable rows put in. -/
theorem flatMap_rows_of_inserted {α : Type} (seen : Option Mapping × List Diagnostic → List α)
    {count : Nat} {before after : List Mapping} (h : Inserted Mapping.Unusable count before after)
    (unseen : ∀ number fault, seen (none, [skipDiagnostic number fault]) = []) (number other : Nat) :
    (rows other after).flatMap seen = (rows number before).flatMap seen := by
  induction h generalizing number other with
  | nil => rfl
  | keep m _ ih =>
    rw [rows, rows, List.flatMap_cons, List.flatMap_cons, ih (number + 1) (other + 1)]
    refine congrArg (· ++ _) ?_
    cases fault : m.fault? with
    | none => rw [row_of_usable fault other number]
    | some f => rw [row_of_fault fault, row_of_fault fault, unseen, unseen]
  | put unusable _ ih =>
    obtain ⟨fault, e⟩ := Option.isSome_iff_exists.mp (Mapping.isSome_fault?_iff.mpr unusable)
    rw [rows, List.flatMap_cons, row_of_fault e, unseen, ih number (other + 1), List.nil_append]

theorem skipped_eq (fields : List Mapping) :
    (ofFields fields).skipped = fields.countP (·.fault?.isSome) := by
  have numbered : (fields.zipIdx 1).countP (·.1.fault?.isSome) = fields.countP (·.fault?.isSome) := by
    conv_rhs => rw [← List.zipIdx_map_fst 1 fields, List.countP_map]
    rfl
  rw [← numbered, ofFields, rows_eq, List.countP_map]
  refine List.countP_congr fun x _ => ?_
  rw [Function.comp_apply, isNone_row]

section Inserted

variable {count : Nat} {before after : List Mapping}
  (h : Inserted Mapping.Unusable count before after)

include h

theorem mappings_of_inserted : (ofFields after).mappings = (ofFields before).mappings := by
  have same := flatMap_rows_of_inserted (fun r => r.1.toList) h (fun _ _ => rfl) 1 1
  simpa only [ofFields, List.filterMap_eq_flatMap_toList] using same

theorem skipped_of_inserted : (ofFields after).skipped = (ofFields before).skipped + count := by
  rw [skipped_eq, skipped_eq]
  exact h.countP fun m => Mapping.isSome_fault?_iff.mpr

theorem diagnostics_of_inserted :
    (ofFields after).diagnostics.filter (!reportsSkip ·) =
      (ofFields before).diagnostics.filter (!reportsSkip ·) := by
  have same := flatMap_rows_of_inserted (fun r => r.2.filter (!reportsSkip ·)) h
    (fun number fault => by simp [reportsSkip_skipDiagnostic]) 1 1
  simpa only [ofFields, List.filter_flatMap] using same

end Inserted

theorem filter_reportsSkip (fields : List Mapping) :
    (ofFields fields).diagnostics.filter reportsSkip =
      (fields.zipIdx 1).filterMap fun x => x.1.fault?.map (skipDiagnostic x.2) := by
  rw [List.filterMap_eq_flatMap_toList]
  simp only [ofFields, rows_eq, List.filter_flatMap, List.flatMap_map, filter_reportsSkip_row]

end Prepared

namespace Stylesheet

open Target (Node Row)

theorem not_reportsSkip_shadowed (tree : List Node) :
    ∀ d ∈ shadowedDiagnostics tree, ¬ reportsSkip d := by
  intro d hd
  obtain ⟨row, _, rfl⟩ := List.mem_map.mp hd
  exact Bool.false_ne_true

theorem not_reportsSkip_undeclared (set : MappingSet) (mappings : List Mapping) :
    ∀ d ∈ XmlSheet.undeclaredDiagnostics set mappings, ¬ reportsSkip d := by
  intro d hd
  obtain ⟨⟨owner, a⟩, _, found⟩ := List.mem_filterMap.mp hd
  simp only at found
  split at found
  · split at found
    · cases found
    · cases found
      exact Bool.false_ne_true
  · cases found

namespace JsonSheet

theorem not_reportsSkip_dropped (m : Mapping) : ∀ d ∈ droppedDiagnostics m, ¬ reportsSkip d := by
  intro d hd
  unfold droppedDiagnostics at hd
  split at hd
  · cases hd
  · rw [List.mem_singleton.mp hd]
    exact Bool.false_ne_true

theorem not_reportsSkip_leaf (name : Text) (rows : List Row) :
    ∀ d ∈ leafDiagnostics name rows, ¬ reportsSkip d := by
  -- A doubled key is reported by a text that begins with a quotation mark.
  intro d hd
  match rows, hd with
  | ⟨_, m⟩ :: others, hd =>
    rcases List.mem_append.mp hd with doubled | dropped
    · obtain ⟨row, _, rfl⟩ := List.mem_map.mp doubled
      intro reported
      have starts := of_decide_eq_true (Bool.and_eq_true_iff.mp reported).2
      simp only [Diagnostic.warning, List.append_assoc] at starts
      exact absurd (List.cons_prefix_cons.mp starts).1 (by decide)
    · split at dropped
      · cases dropped
      · exact not_reportsSkip_dropped m d dropped

mutual

theorem not_reportsSkip_node (n : Node) : ∀ d ∈ nodeDiagnostics n, ¬ reportsSkip d := by
  cases n with
  | leaf name level rows => exact not_reportsSkip_leaf name rows
  | component name level rows children =>
    intro d hd
    unfold nodeDiagnostics at hd
    split at hd
    · cases hd
    · rcases List.mem_append.mp hd with own | below
      · cases defines : Target.definition? rows with
        | none =>
          rw [defines] at own
          cases own
        | some row =>
          rw [defines] at own
          exact not_reportsSkip_dropped row.mapping d own
      · exact not_reportsSkip_tree children d below

theorem not_reportsSkip_tree (ns : List Node) : ∀ d ∈ treeDiagnostics ns, ¬ reportsSkip d := by
  cases ns with
  | nil => exact List.forall_mem_nil _
  | cons n ns =>
    intro d hd
    rcases List.mem_append.mp hd with first | later
    · exact not_reportsSkip_node n d first
    · exact not_reportsSkip_tree ns d later

end

end JsonSheet

end Stylesheet

theorem not_reportsSkip_emit (format : OutputFormat) (set : MappingSet) (options : Options)
    (mappings : List Mapping) :
    ∀ d ∈ (Sheet.emit format set options mappings).diagnostics, ¬ reportsSkip d := by
  intro d hd
  cases format with
  | xml =>
    rcases List.mem_append.mp hd with shadowed | undeclared
    · exact Stylesheet.not_reportsSkip_shadowed _ d shadowed
    · exact Stylesheet.not_reportsSkip_undeclared set mappings d undeclared
  | json =>
    rcases List.mem_append.mp hd with shadowed | tree
    · exact Stylesheet.not_reportsSkip_shadowed _ d shadowed
    · exact Stylesheet.JsonSheet.not_reportsSkip_tree _ d tree
  | flat => cases hd

theorem emit_with_fields (format : OutputFormat) (set : MappingSet) (fields : List Mapping)
    (options : Options) (mappings : List Mapping) :
    Sheet.emit format { set with fields } options mappings =
      Sheet.emit format set options mappings := by
  cases format <;> rfl

/-- Unusable rows put anywhere into a table leave the stylesheet and all other diagnostics as they
are. They are counted, and each unusable row of the table is named once, by its number. -/
theorem generate_ignores_unusable_rows {count : Nat} {set : MappingSet} {fields : List Mapping}
    (h : Inserted Mapping.Unusable count set.fields fields) (format : OutputFormat)
    (options : Options) :
    let before := generate format set options
    let after := generate format { set with fields } options
    after.stylesheet = before.stylesheet ∧
    after.skipped = before.skipped + count ∧
    after.diagnostics.filter (!reportsSkip ·) = before.diagnostics.filter (!reportsSkip ·) ∧
    after.diagnostics.filter reportsSkip =
      (fields.zipIdx 1).filterMap fun (m, number) => m.fault?.map fun fault =>
        { kind := .malformedInput
          severity := .warning
          message := "field #" ++ Text.ofNat number ++ " skipped: " ++ fault.message } := by
  intro before after
  have sheet : Sheet.emit format { set with fields } options
      (Target.complete (Prepared.ofFields fields).mappings) =
        Sheet.emit format set options (Target.complete (Prepared.ofFields set.fields).mappings) := by
    rw [emit_with_fields, Prepared.mappings_of_inserted h]
  refine ⟨congrArg Sheet.text sheet, Prepared.skipped_of_inserted h, ?_, ?_⟩
  · have others : after.diagnostics = (Prepared.ofFields fields).diagnostics ++
        (Sheet.emit format set options
          (Target.complete (Prepared.ofFields set.fields).mappings)).diagnostics := by
      rw [← sheet]
      rfl
    rw [others, List.filter_append, Prepared.diagnostics_of_inserted h, ← List.filter_append]
    rfl
  · have all : after.diagnostics = (Prepared.ofFields fields).diagnostics ++
        (Sheet.emit format { set with fields } options
          (Target.complete (Prepared.ofFields fields).mappings)).diagnostics := rfl
    rw [all, List.filter_append, Prepared.filter_reportsSkip,
      List.filter_eq_nil_iff.mpr (not_reportsSkip_emit _ _ _ _), List.append_nil]
    rfl

/-- One field between two rows that cannot be used. The first of them would shadow its container. -/
def staffSet : MappingSet where
  fields := [{ sourcePath := "Staff/Name", targetName := "Name", targetPath := some "Staff/Name" }]

def staffWithBlankRows : List Mapping :=
  [{ sourcePath := " ", targetName := "Staff" },
    { sourcePath := "Staff/Name", targetName := "Name", targetPath := some "Staff/Name" },
    { sourcePath := "Staff/Id", targetName := "", targetPath := some "Staff/Name" }]

theorem staff_blank_rows_ignored :
    Inserted Mapping.Unusable 2 staffSet.fields staffWithBlankRows ∧
    (generate .json { staffSet with fields := staffWithBlankRows } {}).stylesheet =
      (generate .json staffSet {}).stylesheet ∧
    (generate .json { staffSet with fields := staffWithBlankRows } {}).skipped = 2 ∧
    (generate .json { staffSet with fields := staffWithBlankRows } {}).diagnostics.filter
        reportsSkip =
      [⟨.malformedInput, .warning,
          "field #1 skipped: Malformed mapping: mapping 'Staff' has no source path"⟩,
        ⟨.malformedInput, .warning,
          "field #3 skipped: Malformed mapping: mapping for 'Staff/Id' has no target name"⟩] := by
  have inserted : Inserted Mapping.Unusable 2 staffSet.fields staffWithBlankRows :=
    .put (Or.inl (by decide)) (.keep _ (.put (Or.inr (by decide)) .nil))
  obtain ⟨sheet, skipped, -, named⟩ := generate_ignores_unusable_rows inserted .json {}
  have none : (generate .json staffSet {}).skipped = 0 := by decide +kernel
  rw [none] at skipped
  exact ⟨inserted, sheet, skipped, named.trans (by decide +kernel)⟩

end FieldMap
