import Mathlib.Data.List.Perm.Basic
import FieldMap.Proofs.JsonEntries
import FieldMap.Proofs.TargetRows

/-!
The rows that a stylesheet with JSON output leaves out. A component shows its defining row and a leaf
its first row; every other given row is named in one diagnostic. Together with the entries of the
stylesheet this says that it shows the target tree and loses no row without a word.
-/

namespace FieldMap.Stylesheet.JsonSheet

open Markup
open Target (Node Row build located rowsAt)

/-- The row that the entry of a node stands for. -/
def shown? : Node → Option Row
  | .component _ _ rows _ => Target.definition? rows
  | .leaf _ _ rows => rows.head?

def doubled : Node → List Row
  | .component .. => []
  | .leaf _ _ rows => rows.tail

/-- The rows of a node itself that are named as left out. -/
def omitted (n : Node) : List Row :=
  n.lost ++ doubled n

def report : Node → Mapping → Diagnostic
  | .component .., m =>
    .warning .unsupported
      ("value of '" ++ m.sourcePath ++ "' is not rendered: target '" ++ m.effectivePath ++
        "' is a container")
  | .leaf name _ rows, m =>
    .warning .malformedInput
      ("'" ++ m.sourcePath ++ "' maps to key '" ++ name ++ "' already produced by '" ++
        rows.head?.elim [] (·.mapping.sourcePath) ++ "' and is not emitted")

/-- All rows of a tree that are left out, each with what is said of it. -/
def omissions (tree : List Node) : List (Row × Diagnostic) :=
  (located tree).flatMap fun x => (omitted x.2).map fun r => (r, report x.2 r.mapping)

def isOmission (d : Diagnostic) : Bool :=
  match d.kind with
  | .unsupported => ("' is a container" : Text) <:+ d.message
  | .malformedInput => ("' and is not emitted" : Text) <:+ d.message
  | _ => false

theorem isOmission_report (n : Node) (m : Mapping) : isOmission (report n m) = true := by
  cases n with
  | component => exact decide_eq_true (List.suffix_append _ _)
  | leaf => exact decide_eq_true (List.suffix_append _ _)

theorem not_suffix_of_suffix {s t u : Text} (ends : u <:+ t) (shorter : ¬ s <:+ u)
    (longer : ¬ u <:+ s) : ¬ s <:+ t := by
  intro h
  exact (List.suffix_or_suffix_of_suffix h ends).elim shorter longer

theorem not_isOmission_dropped (m : Mapping) : ∀ d ∈ droppedDiagnostics m, ¬ isOmission d := by
  intro d hd
  rw [droppedDiagnostics] at hd
  split at hd
  · cases hd
  · rw [List.mem_singleton.mp hd]
    exact mt of_decide_eq_true
      (not_suffix_of_suffix (List.suffix_append _ _) (by decide) (by decide))

theorem not_isOmission_issue (path : Path.Normalized) :
    ∀ d ∈ Prepared.issueDiagnostics path, ¬ isOmission d := by
  intro d hd
  obtain ⟨issue, _, rfl⟩ := List.mem_map.mp hd
  exact Bool.false_ne_true

theorem not_isOmission_skip (number : Nat) (fault : Mapping.Fault) :
    ¬ isOmission (Prepared.skipDiagnostic number fault) := by
  refine mt of_decide_eq_true ?_
  cases fault with
  | noSource target =>
    have ends : ("' has no source path" : Text) <:+ (Mapping.Fault.noSource target).message :=
      List.suffix_append _ _
    exact not_suffix_of_suffix (ends.trans (List.suffix_append _ _)) (by decide) (by decide)
  | noTarget source =>
    have ends : ("' has no target name" : Text) <:+ (Mapping.Fault.noTarget source).message :=
      List.suffix_append _ _
    exact not_suffix_of_suffix (ends.trans (List.suffix_append _ _)) (by decide) (by decide)

theorem not_isOmission_row (number : Nat) (f : Mapping) :
    ∀ d ∈ (Prepared.row number f).2, ¬ isOmission d := by
  intro d hd
  unfold Prepared.row at hd
  split at hd
  · rw [List.mem_singleton.mp hd]
    exact not_isOmission_skip number _
  · split at hd
    · exact not_isOmission_issue _ d hd
    · exact (List.mem_append.mp hd).elim (not_isOmission_issue _ d) (not_isOmission_issue _ d)

theorem not_isOmission_prepared (fields : List Mapping) :
    ∀ d ∈ (Prepared.ofFields fields).diagnostics, ¬ isOmission d := by
  intro d hd
  obtain ⟨r, hr, inside⟩ := List.mem_flatMap.mp hd
  obtain ⟨f, _, number, rfl⟩ := Prepared.exists_of_mem_rows hr
  exact not_isOmission_row number f d inside

theorem isOmission_reports (n : Node) (rows : List Row) :
    ∀ d ∈ rows.map fun r => report n r.mapping, isOmission d := by
  intro d hd
  obtain ⟨r, _, rfl⟩ := List.mem_map.mp hd
  exact isOmission_report n r.mapping

theorem shadowedDiagnostics_eq (tree : List Node) :
    shadowedDiagnostics tree =
      (located tree).flatMap fun x => x.2.lost.map fun r => report x.2 r.mapping := by
  rw [shadowedDiagnostics, Target.shadowed_eq_located, List.map_flatMap]
  refine List.flatMap_congr ?_
  rintro ⟨path, n⟩ _
  cases n with
  | component => rfl
  | leaf => rfl

theorem isOmission_shadowed (tree : List Node) : ∀ d ∈ shadowedDiagnostics tree, isOmission d := by
  intro d hd
  rw [shadowedDiagnostics_eq] at hd
  obtain ⟨x, _, inside⟩ := List.mem_flatMap.mp hd
  exact isOmission_reports x.2 x.2.lost d inside

theorem filter_leafDiagnostics (name : Text) (level : Nat) (rows : List Row) :
    (leafDiagnostics name rows).filter isOmission =
      (doubled (.leaf name level rows)).map fun r => report (.leaf name level rows) r.mapping := by
  cases rows with
  | nil => rfl
  | cons first others =>
    have later : ∀ d ∈ if first.mapping.isPlaceholder then [] else droppedDiagnostics first.mapping,
        ¬ isOmission d := by
      split
      · exact List.forall_mem_nil _
      · exact not_isOmission_dropped first.mapping
    rw [leafDiagnostics, List.filter_append, List.filter_eq_nil_iff.mpr later, List.append_nil]
    exact List.filter_eq_self.mpr (isOmission_reports (.leaf name level (first :: others)) others)

mutual

theorem filter_nodeDiagnostics (n : Node) : (nodeDiagnostics n).filter isOmission =
    n.located.flatMap fun x => (doubled x.2).map fun r => report x.2 r.mapping := by
  cases n with
  | leaf name level rows =>
    rw [nodeDiagnostics, filter_leafDiagnostics name level, Node.located, List.flatMap_singleton]
  | component name level rows children =>
    have definition : ∀ d ∈ ((Target.definition? rows).map fun row =>
        droppedDiagnostics row.mapping).getD [], ¬ isOmission d := by
      cases Target.definition? rows with
      | none => exact List.forall_mem_nil _
      | some row => exact not_isOmission_dropped row.mapping
    rw [Node.located, List.flatMap_cons, List.flatMap_map, nodeDiagnostics]
    split
    · next removed =>
      have childless : children = [] := List.isEmpty_iff.mp (Bool.and_eq_true_iff.mp removed).2
      rw [childless]
      rfl
    · rw [List.filter_append, List.filter_eq_nil_iff.mpr definition,
        filter_treeDiagnostics children]
      rfl

theorem filter_treeDiagnostics (ns : List Node) : (treeDiagnostics ns).filter isOmission =
    (located ns).flatMap fun x => (doubled x.2).map fun r => report x.2 r.mapping := by
  cases ns with
  | nil => rfl
  | cons n ns =>
    rw [treeDiagnostics, located, List.filter_append, List.flatMap_append, filter_nodeDiagnostics n,
      filter_treeDiagnostics ns]

end

theorem reports_omissions (tree : List Node) :
    (omissions tree).map Prod.snd = (located tree).flatMap fun x =>
      (x.2.lost.map fun r => report x.2 r.mapping) ++
        (doubled x.2).map fun r => report x.2 r.mapping := by
  rw [omissions, List.map_flatMap]
  refine List.flatMap_congr ?_
  intro x _
  rw [List.map_map, omitted, List.map_append]
  rfl

theorem filter_diagnostics (set : MappingSet) (options : Options) :
    ((generate .json set options).diagnostics.filter isOmission).Perm
      ((omissions (build (sheetRows set.fields))).map Prod.snd) := by
  have all : (generate .json set options).diagnostics =
      (Prepared.ofFields set.fields).diagnostics ++
        (shadowedDiagnostics (build (sheetRows set.fields)) ++
          treeDiagnostics (build (sheetRows set.fields))) := rfl
  rw [all, List.filter_append, List.filter_eq_nil_iff.mpr (not_isOmission_prepared _),
    List.nil_append, List.filter_append, List.filter_eq_self.mpr (isOmission_shadowed _),
    filter_treeDiagnostics, shadowedDiagnostics_eq, reports_omissions]
  exact List.flatMap_append_perm _ _ _

section Rows

variable {ms : List Mapping} {x : List Text × Node}

theorem omitted_sublist (h : x ∈ located (build ms)) : (omitted x.2).Sublist (rowsAt ms x.1) := by
  rcases Target.node_eq h with ⟨name, level, e⟩ | ⟨name, level, children, e⟩
  · rw [e]
    exact List.tail_sublist _
  · rw [e, omitted, doubled, List.append_nil]
    exact Target.lostRows_sublist _

theorem rows_omissions (tree : List Node) :
    (omissions tree).map Prod.fst = (located tree).flatMap (omitted ·.2) := by
  rw [omissions, List.map_flatMap]
  refine List.flatMap_congr ?_
  intro x _
  rw [List.map_map]
  exact List.map_id _

theorem nodup_omissions : ((omissions (build ms)).map (·.1.index)).Nodup := by
  have rows : (((located (build ms)).flatMap (omitted ·.2)).map Row.index).Nodup :=
    Target.nodup_index_flatMap fun _ => omitted_sublist
  rwa [← rows_omissions, List.map_map] at rows

theorem shown_or_mem_omitted {n : Node} {i : Nat} {m : Mapping} (hi : ms[i]? = some m)
    (given : m.isPlaceholder = false) (h : (m.segments, n) ∈ located (build ms)) :
    shown? n = some ⟨i, m⟩ ∧ isRemoved n = false ∨ ⟨i, m⟩ ∈ omitted n := by
  have member : (⟨i, m⟩ : Row) ∈ rowsAt ms m.segments := Target.mem_rowsAt.mpr ⟨hi, rfl⟩
  rcases Target.node_eq h with ⟨name, level, rfl⟩ | ⟨name, level, children, rfl⟩
  · cases rows : rowsAt ms m.segments with
    | nil => simp [rows] at member
    | cons first others =>
      rcases List.mem_cons.mp (rows ▸ member) with rfl | later
      · exact Or.inl ⟨rfl, given⟩
      · exact Or.inr later
  · rcases Target.definition?_or_mem_lostRows member given with defines | lost
    · refine Or.inl ⟨defines, ?_⟩
      rw [isRemoved, Target.isGap, defines, Option.any_some, given, Bool.false_and]
    · exact Or.inr (List.mem_append_left _ lost)

theorem filter_eq_singleton {α : Type} {l : List α} {key : α → Nat} (h : (l.map key).Nodup) {a : α}
    (ha : a ∈ l) : l.filter (key · = key a) = [a] := by
  induction l with
  | nil => cases ha
  | cons b l ih =>
    obtain ⟨fresh, rest⟩ := List.nodup_cons.mp h
    rcases List.mem_cons.mp ha with rfl | later
    · have others : l.filter (key · = key a) = [] := by
        refine List.filter_eq_nil_iff.mpr ?_
        intro c hc same
        exact fresh (of_decide_eq_true same ▸ List.mem_map_of_mem hc)
      rw [List.filter_cons, if_pos (decide_eq_true rfl), others]
    · have different : key b ≠ key a := fun same => fresh (same ▸ List.mem_map_of_mem later)
      rw [List.filter_cons, if_neg (mt of_decide_eq_true different), ih rest later]

theorem shown_or_omitted_once {i : Nat} {m : Mapping} (hi : ms[i]? = some m)
    (given : m.isPlaceholder = false) (named : m.segments ≠ []) :
    ∃ n, (m.segments, n) ∈ located (build ms) ∧
      (shown? n = some ⟨i, m⟩ ∧ isRemoved n = false ∨
        (omissions (build ms)).filter (·.1.index = i) = [(⟨i, m⟩, report n m)]) := by
  obtain ⟨n, hn⟩ := Target.exists_node hi named
  refine ⟨n, hn, (shown_or_mem_omitted hi given hn).imp_right ?_⟩
  intro out
  have member : (⟨i, m⟩, report n m) ∈ omissions (build ms) :=
    List.mem_flatMap.mpr ⟨_, hn, List.mem_map_of_mem out⟩
  exact filter_eq_singleton nodup_omissions member

end Rows

/-- A stylesheet with JSON output shows the target tree without the nodes that only fill a gap. Its
lines form entries with the names of the nodes as keys, with arrays where the rows of the nodes
repeat and with no two equal keys in one map. Each given mapping with a target name stands for the
entry of its node or is named in exactly one diagnostic. -/
theorem entries_show_tree (set : MappingSet) (options : Options) :
    let prepared := (Prepared.ofFields set.fields).mappings
    let tree := build (Target.complete prepared)
    let lines := allSteps (body set options.jsonValues tree)
    let result := generate .json set options
    result.stylesheet = layout options.indent (frame options lines) ∧
    (∃ elements, elements? lines = some elements ∧
      allEntries? elements = some (treeEntries tree) ∧ KeysDistinct elements) ∧
    (result.diagnostics.filter isOmission).Perm ((omissions tree).map Prod.snd) ∧
    ∀ i m, prepared[i]? = some m → m.isPlaceholder = false → m.segments ≠ [] →
      ∃ n, (m.segments, n) ∈ located tree ∧
        (shown? n = some ⟨i, m⟩ ∧ isRemoved n = false ∨
          (omissions tree).filter (·.1.index = i) = [(⟨i, m⟩, report n m)]) := by
  intro prepared tree lines result
  have body := renders_body set options.jsonValues (sheetRows set.fields)
  refine ⟨stylesheet_eq set options, ⟨_, elements?_allSteps body.readable, body.read, body.distinct⟩,
    filter_diagnostics set options, ?_⟩
  intro i m hi given named
  have kept : (Target.complete prepared)[i]? = some m := by
    obtain ⟨inside, _⟩ := List.getElem?_eq_some_iff.mp hi
    rw [Target.complete, List.getElem?_append_left inside, hi]
  exact shown_or_omitted_once kept given named

def netTotal : Mapping :=
  { sourcePath := "//Order/Net", targetName := "Total" }

/-- An order with a value of its own, lines, and two sources for its total. -/
def receiptSet : MappingSet where
  fields :=
    [{ sourcePath := "//Order", targetName := "Order" },
      { sourcePath := "//Line", targetName := "Line", targetPath := some "Order/Line", occurs := 2 },
      { sourcePath := "//Order/Sum", targetName := "Total" },
      netTotal]

theorem receipt_entries_show_tree :
    let prepared := (Prepared.ofFields receiptSet.fields).mappings
    let tree := build (Target.complete prepared)
    (∃ elements, elements? (allSteps (body receiptSet .typed tree)) = some elements ∧
      allEntries? elements =
        some [.mk "Order" false [.mk "Line" true []], .mk "Total" false []]) ∧
    prepared[3]? = some netTotal ∧ netTotal.isPlaceholder = false ∧ netTotal.segments ≠ [] ∧
    (omissions tree).filter (·.1.index = 3) =
      [(⟨3, netTotal⟩, .warning .malformedInput
        "'//Order/Net' maps to key 'Total' already produced by '//Order/Sum' and is not emitted")] := by
  intro prepared tree
  obtain ⟨-, ⟨elements, lines, entries, -⟩, -, accounted⟩ :=
    entries_show_tree receiptSet { jsonValues := .typed }
  have shape : treeEntries tree =
      [.mk "Order" false [.mk "Line" true []], .mk "Total" false []] := by decide +kernel
  have place : prepared[3]? = some netTotal := by decide +kernel
  have named : netTotal.segments ≠ [] := by decide +kernel
  obtain ⟨n, found, either⟩ := accounted 3 netTotal place rfl named
  have hidden : ∀ x ∈ located tree, shown? x.2 ≠ some ⟨3, netTotal⟩ := by decide +kernel
  have said : ∀ x ∈ located tree, x.1 = netTotal.segments → report x.2 netTotal =
      .warning .malformedInput
        "'//Order/Net' maps to key 'Total' already produced by '//Order/Sum' and is not emitted" := by
    decide +kernel
  have omitted := either.resolve_left fun shown => hidden _ found shown.1
  rw [said _ found rfl] at omitted
  exact ⟨⟨elements, lines, entries.trans (congrArg some shape)⟩, place, rfl, named, omitted⟩

end FieldMap.Stylesheet.JsonSheet
