import FieldMap.Generation
import FieldMap.Proofs.BareMarkup
import FieldMap.Proofs.CompletedTree
import FieldMap.Proofs.Insertions

/-!
Stylesheets of completed lists of mappings. A placeholder has no attributes, no loop and no column, so
the stylesheets for XML and for flat text are those of the given mappings. The one for JSON has a comment
more for each gap; a comment is a line of its own and leaves all other lines as they are.
-/

namespace FieldMap

open Target (Node Row)

namespace Markup

/-- The steps of the second list are those of the first with further ones put in. -/
def Extends (p : Step → Prop) (count : Nat) (a b : List Markup) : Prop :=
  Inserted p count (allSteps a) (allSteps b)

namespace Extends

variable {p : Step → Prop} {count other : Nat} {a b : List Markup}

theorem refl (a : List Markup) : Extends p 0 a a :=
  Inserted.refl _

theorem append {c d : List Markup} (first : Extends p count a b) (second : Extends p other c d) :
    Extends p (count + other) (a ++ c) (b ++ d) := by
  unfold Extends
  rw [allSteps_append, allSteps_append]
  exact Inserted.append first second

theorem block (h : Extends p count a b) (tag : Tag) :
    Extends p count [.block tag a] [.block tag b] := by
  have closed := Inserted.append h (Inserted.refl [Step.finish tag.endText])
  simpa [Extends, allSteps, steps] using Inserted.keep (Step.start tag.startText) closed

theorem comment {text : Text} (own : p (.comment text)) (h : Extends p count a b) :
    Extends p (count + 1) a (.comment text :: b) :=
  Inserted.put own h

theorem after (h : Extends p count a b) (before : List Markup) :
    Extends p count (before ++ a) (before ++ b) := by
  simpa using (refl before).append h

end Extends

theorem inserted_write {p : Step → Prop} {count : Nat} {a b : List Step}
    (still : ∀ step, p step → ∀ depth, step.depthAfter depth = depth) (h : Inserted p count a b)
    (indent depth : Nat) :
    Inserted (fun line => ∃ step, p step ∧ ∃ depth, line = step.text indent depth) count
      (write indent depth a) (write indent depth b) := by
  induction h generalizing depth with
  | nil => exact .nil
  | keep step _ ih => exact .keep _ (ih _)
  | put own _ ih =>
    have later := ih depth
    refine .put ⟨_, own, depth, rfl⟩ ?_
    rwa [still _ own]

end Markup

namespace Mapping

theorem attributes_placeholder (path : Text) : (placeholder path).attributes = [] := rfl

theorem isPlaceholder_placeholder (path : Text) : (placeholder path).isPlaceholder = true := rfl

theorem loopPath?_placeholder (path : Text) : Stylesheet.loopPath? (placeholder path) = none := rfl

end Mapping

namespace Stylesheet

def Placeholders (row : List Text → Row) : Prop :=
  ∀ path, ∃ text, (row path).mapping = Mapping.placeholder text

theorem Placeholders.below {row : List Text → Row} (h : Placeholders row) (name : Text) :
    Placeholders fun path => row (name :: path) :=
  fun path => h (name :: path)

theorem inserted_sheetSteps {p : Markup.Step → Prop} {count : Nat} {a b : List Markup}
    (h : Markup.Extends p count a b) (header : Markup.Tag) :
    Inserted p count (sheetSteps header a) (sheetSteps header b) := by
  have whole := Inserted.keep (Markup.Step.line declaration) (h.block header)
  simpa [sheetSteps, Markup.allSteps] using whole

theorem isGap_singleton (r : Row) : Target.isGap [r] = r.mapping.isPlaceholder := by
  rw [Target.isGap, Target.definition?_singleton, Option.any_some]

namespace XmlSheet

mutual

theorem node_fill {row : List Text → Row} (h : Placeholders row) (n : Node) (context : Context) :
    node (n.fill row) context = node n context := by
  cases n with
  | component name level rows children =>
    have inner := nodes_fill (h.below name) children
    by_cases none : rows = []
    · subst none
      obtain ⟨text, filled⟩ := h [name]
      have tag : componentTag name (some (row [name])) = componentTag name none := by
        rw [componentTag, filled, Mapping.attributes_placeholder]
        rfl
      rw [Target.fill_undefined, node, Target.definition?_singleton, Option.bind_some, filled,
        Mapping.loopPath?_placeholder, tag, Target.isEmpty_fill]
      simp only [inner]
      rfl
    · rw [Target.fill_defined row none, node, Target.isEmpty_fill]
      simp only [inner]
      rw [node]
  | leaf name level rows => rfl

theorem nodes_fill {row : List Text → Row} (h : Placeholders row) (ns : List Node)
    (context : Context) : nodes (Target.fill row ns) context = nodes ns context := by
  cases ns with
  | nil => rfl
  | cons n ns => rw [Target.fill, nodes, nodes, node_fill h n, nodes_fill h ns]

end

theorem templateBody_fill {row : List Text → Row} (h : Placeholders row) (root : Option RootElement)
    (tree : List Node) : templateBody root (Target.fill row tree) = templateBody root tree := by
  simp only [templateBody, nodes_fill h, Target.isEmpty_fill]

theorem undeclaredDiagnostics_append (set : MappingSet) (ms : List Mapping) (paths : List Text) :
    undeclaredDiagnostics set (ms ++ paths.map Mapping.placeholder) =
      undeclaredDiagnostics set ms := by
  have none : (paths.map Mapping.placeholder).flatMap
      (fun m => m.attributes.map (m.effectivePath, ·)) = [] := by
    simp [List.flatMap_map, Mapping.attributes_placeholder]
  have same : attributesByOwner set (ms ++ paths.map Mapping.placeholder) =
      attributesByOwner set ms := by
    rw [attributesByOwner, attributesByOwner, List.flatMap_append, none, List.append_nil]
  rw [undeclaredDiagnostics, undeclaredDiagnostics, same]

end XmlSheet

namespace JsonSheet

def gapNote (name : Text) : Text :=
  "placeholder container '" ++ name ++ "'"

def IsGapNote (names : Text → Prop) (step : Markup.Step) : Prop :=
  ∃ name, names name ∧ step = .comment (gapNote name)

def Undefined (names : Text → Prop) (located : List (List Text × Node)) : Prop :=
  ∀ x ∈ located, x.2.isUndefined = true → names x.2.name ∧ x.2.children ≠ []

open Markup (Extends)

theorem extends_content {p : Markup.Step → Prop} {count : Nat} {map map' : Context → List Markup}
    (h : ∀ inner, Extends p count (map inner) (map' inner)) (path? : Option Text) (context : Context) :
    Extends p count
      (match path? with
        | some path => [array path context map]
        | none => map context)
      (match path? with
        | some path => [array path context map']
        | none => map' context) := by
  cases path? with
  | none => exact h context
  | some path => exact ((h (some path)).block _).block _

theorem node_defined {mode : JsonValues} {name : Text} {level : Nat} {rows : List Row}
    {children : List Node} {context : Context}
    (shown : (Target.isGap rows && children.isEmpty) = false) :
    node mode (.component name level rows children) context =
      ((if Target.isGap rows then [Markup.comment (gapNote name)] else []) ++
        ((Target.definition? rows).map fun row => optionalNote row.mapping).getD []) ++
        [.block (entryTag name)
          (match (Target.definition? rows).bind fun row => loopPath? row.mapping with
            | some path => [array path context fun inner =>
                [Markup.block (Markup.Tag.of "xsl:map") (nodes mode children inner)]]
            | none => [Markup.block (Markup.Tag.of "xsl:map") (nodes mode children context)])] := by
  rw [node]
  simp only [shown]
  rfl

theorem node_undefined (mode : JsonValues) (name : Text) (level : Nat) (children : List Node)
    (context : Context) :
    node mode (.component name level [] children) context =
      [.block (entryTag name) [.block (Markup.Tag.of "xsl:map") (nodes mode children context)]] :=
  node_defined rfl

theorem node_filled {r : Row} (h : ∃ text, r.mapping = Mapping.placeholder text) {mode : JsonValues}
    {name : Text} {level : Nat} {children : List Node} {context : Context}
    (some_child : children.isEmpty = false) :
    node mode (.component name level [r] children) context =
      [.comment (gapNote name),
        .block (entryTag name) [.block (Markup.Tag.of "xsl:map") (nodes mode children context)]] := by
  obtain ⟨text, e⟩ := h
  rw [node_defined (by rw [some_child, Bool.and_false]), isGap_singleton, Target.definition?_singleton,
    Option.map_some, Option.bind_some, e, Mapping.loopPath?_placeholder]
  rfl

mutual

theorem extends_node {names : Text → Prop} {row : List Text → Row} (filled : Placeholders row)
    (mode : JsonValues) (n : Node) (h : Undefined names n.located) (context : Context) :
    Extends (IsGapNote names) (n.located.countP (·.2.isUndefined)) (node mode n context)
      (node mode (n.fill row) context) := by
  cases n with
  | component name level rows children =>
    rw [Node.located] at h ⊢
    obtain ⟨own, below⟩ := List.forall_mem_cons.mp h
    have inner := extends_nodes (filled.below name) mode children fun x hx =>
      below (name :: x.1, x.2) (List.mem_map_of_mem hx)
    rw [List.countP_cons, List.countP_map]
    by_cases none : rows = []
    · subst none
      obtain ⟨known, some_child⟩ := own rfl
      have nonempty : children.isEmpty = false := by simpa [Node.children] using some_child
      rw [Target.fill_undefined, node_undefined,
        node_filled (filled [name]) ((Target.isEmpty_fill _ _).trans nonempty)]
      exact (((inner context).block _).block _).comment ⟨name, known, rfl⟩
    · rw [Target.fill_defined row none, Node.isUndefined, Target.isNone_definition? none]
      -- A component that only fills a gap and has no children is a comment and nothing else.
      by_cases alone : (Target.isGap rows && children.isEmpty) = true
      · have childless : children = [] := by simp_all
        subst childless
        exact Extends.refl _
      · rw [Bool.not_eq_true] at alone
        rw [node_defined alone, node_defined ((congrArg _ (Target.isEmpty_fill _ _)).trans alone)]
        exact ((extends_content (fun inside => (inner inside).block _) _ context).block _).after _
  | leaf name level rows => exact Extends.refl _

theorem extends_nodes {names : Text → Prop} {row : List Text → Row} (filled : Placeholders row)
    (mode : JsonValues) (ns : List Node) (h : Undefined names (Target.located ns)) (context : Context) :
    Extends (IsGapNote names) ((Target.located ns).countP (·.2.isUndefined)) (nodes mode ns context)
      (nodes mode (Target.fill row ns) context) := by
  cases ns with
  | nil => exact Extends.refl _
  | cons n ns =>
    obtain ⟨first, later⟩ := List.forall_mem_append.mp h
    rw [Target.located, List.countP_append, nodes, Target.fill, nodes]
    exact (extends_node filled mode n first context).append (extends_nodes filled mode ns later context)

end

mutual

theorem nodeDiagnostics_fill {names : Text → Prop} {row : List Text → Row} (filled : Placeholders row)
    (n : Node) (h : Undefined names n.located) : nodeDiagnostics (n.fill row) = nodeDiagnostics n := by
  cases n with
  | component name level rows children =>
    rw [Node.located] at h
    obtain ⟨own, below⟩ := List.forall_mem_cons.mp h
    have inner := treeDiagnostics_fill (filled.below name) children fun x hx =>
      below (name :: x.1, x.2) (List.mem_map_of_mem hx)
    by_cases none : rows = []
    · subst none
      have nonempty : children.isEmpty = false := by simpa [Node.children] using (own rfl).2
      obtain ⟨text, e⟩ := filled [name]
      rw [Target.fill_undefined, nodeDiagnostics, nodeDiagnostics, Target.isEmpty_fill, nonempty,
        Bool.and_false, Bool.and_false, Target.definition?_singleton, Option.map_some, e, inner]
      rfl
    · rw [Target.fill_defined row none, nodeDiagnostics, nodeDiagnostics, Target.isEmpty_fill, inner]
  | leaf name level rows => rfl

theorem treeDiagnostics_fill {names : Text → Prop} {row : List Text → Row} (filled : Placeholders row)
    (ns : List Node) (h : Undefined names (Target.located ns)) :
    treeDiagnostics (Target.fill row ns) = treeDiagnostics ns := by
  cases ns with
  | nil => rfl
  | cons n ns =>
    obtain ⟨first, later⟩ := List.forall_mem_append.mp h
    rw [Target.fill, treeDiagnostics, treeDiagnostics, nodeDiagnostics_fill filled n first,
      treeDiagnostics_fill filled ns later]

end

def lines (set : MappingSet) (options : Options) (mappings : List Mapping) : List Text :=
  Markup.write options.indent 0
    (sheetSteps (header options) (body set options.jsonValues (Target.build mappings)))

theorem text_eq_flatten (set : MappingSet) (options : Options) (mappings : List Mapping) :
    text set options mappings = (lines set options mappings).flatten := rfl

theorem extends_body {p : Markup.Step → Prop} {count : Nat} {mode : JsonValues} {tree tree' : List Node}
    (h : ∀ context, Extends p count (nodes mode tree context) (nodes mode tree' context))
    (set : MappingSet) : Extends p count (body set mode tree) (body set mode tree') :=
  ((((h _).block _).block _).block _).after [.line (.empty outputTag)]

end JsonSheet

namespace FlatSheet

theorem columns_append (ms : List Mapping) (paths : List Text) :
    columns (ms ++ paths.map Mapping.placeholder) = columns ms := by
  simp [columns, List.filter_append, List.filter_map, Function.comp_def,
    Mapping.isPlaceholder_placeholder]

end FlatSheet

end Stylesheet

namespace Target

open Stylesheet

def IsGapLine (ms : List Mapping) (indent : Nat) (line : Text) : Prop :=
  ∃ parents name, parents ++ [name] ∈ gapPaths ms ∧ ∃ depth,
    line = (Markup.Step.comment (JsonSheet.gapNote name)).text indent depth

/-- Completion adds a placeholder for each gap, and this shows nowhere but in comments. -/
structure OnlyFillsGaps (ms : List Mapping) : Prop where
  rows : complete ms = ms ++ (gapPaths ms).map gapMapping
  nodup : ((gapPaths ms).map gapMapping).Nodup
  mem_gapPaths : ∀ path, path ∈ gapPaths ms ↔ path ≠ [] ∧
    (∃ m ∈ ms, path <+: m.segments ∧ path ≠ m.segments) ∧ ∀ m ∈ ms, m.segments ≠ path
  order : (gapPaths ms).Pairwise (NeededBefore ms)
  segments : ∀ path ∈ gapPaths ms, (gapMapping path).segments = path
  idempotent : complete (complete ms) = complete ms
  /-- Nodes, names, levels, children and leaves are the same, and so are all rows but those of the
  components without a defining row. -/
  tree : build (complete ms) = fill (gapRow ms) (build ms)
  undefined_iff : ∀ x ∈ located (build ms), x.2.isUndefined = true ↔ x.1 ∈ gapPaths ms
  gap_row : ∀ path ∈ gapPaths ms, (complete ms)[(gapRow ms path).index]? = some (gapMapping path)
  shadowed : shadowed (build (complete ms)) = shadowed (build ms)
  xml : ∀ set options, Sheet.emit .xml set options (complete ms) = Sheet.emit .xml set options ms
  flat : ∀ set options, Sheet.emit .flat set options (complete ms) = Sheet.emit .flat set options ms
  json_diagnostics : ∀ set options,
    (Sheet.emit .json set options (complete ms)).diagnostics =
      (Sheet.emit .json set options ms).diagnostics
  json_text : ∀ set options mappings,
    (Sheet.emit .json set options mappings).text = (JsonSheet.lines set options mappings).flatten
  /-- There is one line more for each gap. -/
  json_lines : ∀ set options, Inserted (IsGapLine ms options.indent) (gapPaths ms).length
    (JsonSheet.lines set options ms) (JsonSheet.lines set options (complete ms))

section sheets

variable (ms : List Mapping)

theorem placeholders_gapRow : Placeholders (gapRow ms) :=
  fun path => ⟨pathText path, rfl⟩

theorem undefined_build :
    JsonSheet.Undefined (fun name => ∃ parents, parents ++ [name] ∈ gapPaths ms)
      (located (build ms)) := by
  intro x hx undefined
  refine ⟨?_, children_ne_nil_of_isUndefined hx undefined⟩
  have gap := (isUndefined_iff hx).mp undefined
  obtain ⟨parents, name, e, -, node⟩ := mem_located_build.mp hx
  rw [node, name_mkNode]
  exact ⟨parents, e ▸ gap⟩

theorem shadowed_complete : shadowed (build (complete ms)) = shadowed (build ms) := by
  rw [build_complete]
  exact shadowed_fill (fun _ => rfl) _

theorem emit_xml_complete (set : MappingSet) (options : Options) :
    Sheet.emit .xml set options (complete ms) = Sheet.emit .xml set options ms := by
  have body : XmlSheet.body set (build (complete ms)) = XmlSheet.body set (build ms) := by
    rw [XmlSheet.body, XmlSheet.body, build_complete,
      XmlSheet.templateBody_fill (placeholders_gapRow ms)]
  have diagnostics : XmlSheet.diagnostics set (complete ms) = XmlSheet.diagnostics set ms := by
    rw [XmlSheet.diagnostics, XmlSheet.diagnostics, shadowedDiagnostics, shadowed_complete,
      ← shadowedDiagnostics]
    exact congrArg _ (XmlSheet.undeclaredDiagnostics_append set ms (gaps ms))
  rw [Sheet.emit, Sheet.emit, XmlSheet.text, XmlSheet.text, body, diagnostics]

theorem emit_flat_complete (set : MappingSet) (options : Options) :
    Sheet.emit .flat set options (complete ms) = Sheet.emit .flat set options ms := by
  have columns := FlatSheet.columns_append ms (gaps ms)
  rw [Sheet.emit, Sheet.emit, FlatSheet.text, FlatSheet.text, complete, columns]

theorem json_diagnostics_complete :
    JsonSheet.diagnostics (complete ms) = JsonSheet.diagnostics ms := by
  rw [JsonSheet.diagnostics, JsonSheet.diagnostics, shadowedDiagnostics, shadowed_complete,
    ← shadowedDiagnostics, build_complete,
    JsonSheet.treeDiagnostics_fill (placeholders_gapRow ms) _ (undefined_build ms)]

theorem json_lines_complete (set : MappingSet) (options : Options) :
    Inserted (IsGapLine ms options.indent) (gapPaths ms).length
      (JsonSheet.lines set options ms) (JsonSheet.lines set options (complete ms)) := by
  have notes := JsonSheet.extends_body
    (JsonSheet.extends_nodes (placeholders_gapRow ms) options.jsonValues (build ms)
      (undefined_build ms)) set
  rw [countP_isUndefined, ← build_complete] at notes
  have still : ∀ step, JsonSheet.IsGapNote (fun name => ∃ parents, parents ++ [name] ∈ gapPaths ms)
      step → ∀ depth, step.depthAfter depth = depth := by
    rintro step ⟨name, -, rfl⟩ depth
    rfl
  have written := Markup.inserted_write still
    (inserted_sheetSteps notes (JsonSheet.header options)) options.indent 0
  refine written.mono ?_
  rintro line ⟨step, ⟨name, ⟨parents, gap⟩, rfl⟩, depth, rfl⟩
  exact ⟨parents, name, gap, depth, rfl⟩

end sheets

/-- Completing a list only fills its gaps. -/
theorem complete_only_fills_gaps (ms : List Mapping) : OnlyFillsGaps ms where
  rows := complete_eq ms
  nodup := nodup_gapMappings ms
  mem_gapPaths := fun _ => mem_gapPaths
  order := pairwise_gapPaths ms
  segments := fun _ => segments_gapMapping
  idempotent := complete_complete ms
  tree := build_complete ms
  undefined_iff := fun _ => isUndefined_iff
  gap_row := fun _ => getElem?_gapRow ms
  shadowed := shadowed_complete ms
  xml := emit_xml_complete ms
  flat := emit_flat_complete ms
  json_diagnostics := fun _ _ => json_diagnostics_complete ms
  json_text := JsonSheet.text_eq_flatten
  json_lines := json_lines_complete ms

end Target

end FieldMap
