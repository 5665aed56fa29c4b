import FieldMap.Proofs.GapPaths
import FieldMap.Proofs.TargetRows

/-!
The tree of a completed list of mappings. It is the tree of the given mappings with the placeholder of
its path on each component that had no defining row. The rows that completion adds come after all
others and end where given rows only pass through, so they open no node and move none.
-/

namespace FieldMap.Target

mutual

/-- The node with a row on each component that has no defining row; `row` gives it by the path that
leads to the component. -/
def Node.fill (row : List Text → Row) : Node → Node
  | .component name level rows children =>
    .component name level (if (definition? rows).isNone then [row [name]] else rows)
      (fill (fun path => row (name :: path)) children)
  | .leaf name level rows => .leaf name level rows

def fill (row : List Text → Row) : List Node → List Node
  | [] => []
  | n :: ns => n.fill row :: fill row ns

end

def Node.isUndefined : Node → Bool
  | .component _ _ rows _ => (definition? rows).isNone
  | .leaf .. => false

def gapRow (ms : List Mapping) (path : List Text) : Row :=
  ⟨(complete ms).idxOf (gapMapping path), gapMapping path⟩

def rowsOn (path : List Text) (placed : List Placed) : List Row :=
  placed.filterMap fun x => if x.path = path then some x.row else none

/-- Rows go on below a path, and none ends there. -/
def Misses (placed : List Placed) (path : List Text) : Prop :=
  (∃ x ∈ placed, path <+: x.path ∧ path ≠ x.path) ∧ ∀ x ∈ placed, x.path ≠ path

/-- The further rows are one for each path that misses a row. -/
structure Fills (row : List Text → Row) (placed extra : List Placed) : Prop where
  filled : ∀ path, path ≠ [] → Misses placed path → rowsOn path extra = [row path]
  untouched : ∀ path, path ≠ [] → ¬ Misses placed path → rowsOn path extra = []

theorem definition?_eq_none_iff {rows : List Row} : definition? rows = none ↔ rows = [] := by
  rw [definition?, Option.or_eq_none_iff, List.head?_eq_none_iff]
  refine and_iff_right_of_imp ?_
  rintro rfl
  rfl

theorem isNone_definition? {rows : List Row} (h : rows ≠ []) : (definition? rows).isNone = false := by
  rw [Option.isNone_eq_false_iff, Option.isSome_iff_ne_none]
  exact mt definition?_eq_none_iff.mp h

theorem definition?_singleton (r : Row) : definition? [r] = some r := by
  rw [definition?]
  cases given : r.mapping.isPlaceholder <;> simp [given]

section fill

variable (row : List Text → Row)

theorem fill_undefined (name : Text) (level : Nat) (children : List Node) :
    (Node.component name level [] children).fill row =
      .component name level [row [name]] (fill (fun path => row (name :: path)) children) := by
  rw [Node.fill]
  rfl

theorem fill_defined {rows : List Row} (h : rows ≠ []) (name : Text) (level : Nat)
    (children : List Node) :
    (Node.component name level rows children).fill row =
      .component name level rows (fill (fun path => row (name :: path)) children) := by
  rw [Node.fill, isNone_definition? h]
  rfl

theorem fill_eq_map (ns : List Node) : fill row ns = ns.map (Node.fill row) :=
  Trees.eq_map rfl (fun _ _ => rfl) ns

@[simp] theorem isEmpty_fill (ns : List Node) : (fill row ns).isEmpty = ns.isEmpty := by
  cases ns <;> rfl

theorem fill_mkNode {rows : List Row} (h : rows ≠ []) (name : Text) (level : Nat)
    (children : List Node) :
    (mkNode name level rows children).fill row =
      mkNode name level rows (fill (fun path => row (name :: path)) children) := by
  rw [mkNode, mkNode, isEmpty_fill]
  split
  · exact fill_defined row h name level children
  · rfl

theorem fill_mkNode_nil {children : List Node} (h : children ≠ []) (name : Text) (level : Nat) :
    (mkNode name level [] children).fill row =
      mkNode name level [row [name]] (fill (fun path => row (name :: path)) children) := by
  have some_child : children.isEmpty = false := by simpa using h
  rw [mkNode, mkNode, isEmpty_fill, some_child]
  exact fill_undefined row name level children

end fill

section below

variable {placed extra : List Placed} {name : Text} {path : List Text}

theorem rowsOn_below (ne : path ≠ []) :
    rowsOn path (below name placed) = rowsOn (name :: path) placed := by
  obtain ⟨q, s, rfl⟩ := List.eq_nil_or_concat path |>.resolve_left ne
  rw [List.concat_eq_append]
  exact (ending_under q s (below name placed)).symm.trans (ending_under (name :: q) s placed)

theorem misses_below (ne : path ≠ []) :
    Misses (below name placed) path ↔ Misses placed (name :: path) := by
  constructor
  · rintro ⟨⟨x, hx, inside, different⟩, free⟩
    refine ⟨⟨_, (mem_below.mp hx).2, (List.prefix_cons_inj name).mpr inside, ?_⟩, ?_⟩
    · simpa using different
    · rintro ⟨long, r⟩ hy rfl
      exact free ⟨path, r⟩ (mem_below.mpr ⟨ne, hy⟩) rfl
  · rintro ⟨⟨⟨long, r⟩, hx, ⟨rest, rfl⟩, different⟩, free⟩
    have longer : path ++ rest ≠ [] := by simp [ne]
    refine ⟨⟨⟨path ++ rest, r⟩, mem_below.mpr ⟨longer, hx⟩, List.prefix_append _ _, ?_⟩, ?_⟩
    · simpa using different
    · rintro y hy rfl
      exact free _ (mem_below.mp hy).2 rfl

theorem Fills.below {row : List Text → Row} (h : Fills row placed extra) (name : Text) :
    Fills (fun path => row (name :: path)) (below name placed) (below name extra) where
  filled := by
    intro path ne missing
    rw [rowsOn_below ne]
    exact h.filled _ (List.cons_ne_nil _ _) ((misses_below ne).mp missing)
  untouched := by
    intro path ne there
    rw [rowsOn_below ne]
    exact h.untouched _ (List.cons_ne_nil _ _) (mt (misses_below ne).mpr there)

end below

section forest

variable {row : List Text → Row} {placed extra : List Placed} {name : Text}

theorem rowsOn_eq_nil_iff {path : List Text} :
    rowsOn path placed = [] ↔ ∀ x ∈ placed, x.path ≠ path := by
  simp [rowsOn, List.filterMap_eq_nil_iff]

theorem Fills.misses (h : Fills row placed extra) {x : Placed} (hx : x ∈ extra) (ne : x.path ≠ []) :
    Misses placed x.path := by
  by_contra there
  exact rowsOn_eq_nil_iff.mp (h.untouched _ ne there) x hx rfl

theorem Fills.heads (h : Fills row placed extra) :
    Target.heads (placed ++ extra) = Target.heads placed := by
  rw [Target.heads, List.filterMap_append, distinct_append, List.filter_eq_nil_iff.mpr,
    List.append_nil]
  · rfl
  · intro name hname
    obtain ⟨x, hx, first⟩ := List.mem_filterMap.mp (mem_distinct.mp hname)
    obtain ⟨rest, e⟩ := List.head?_eq_some_iff.mp first
    obtain ⟨⟨y, hy, ⟨more, e'⟩, -⟩, -⟩ := h.misses hx (by simp [e])
    have earlier : name ∈ placed.filterMap (·.path.head?) :=
      List.mem_filterMap.mpr ⟨y, hy, by rw [← e', e]; rfl⟩
    simpa using earlier

theorem depth_le_iff {n : Nat} : depth placed ≤ n ↔ ∀ x ∈ placed, x.path.length ≤ n := by
  induction placed with
  | nil => simp [depth]
  | cons x placed ih => rw [depth, List.foldr_cons, ← depth, Nat.max_le, ih, List.forall_mem_cons]

theorem Fills.depth (h : Fills row placed extra) :
    Target.depth (placed ++ extra) = Target.depth placed := by
  refine Nat.le_antisymm (depth_le_iff.mpr fun x hx => ?_) (depth_le_iff.mpr fun x hx => ?_)
  · rcases List.mem_append.mp hx with hx | hx
    · exact length_le_depth hx
    · by_cases ne : x.path = []
      · simp [ne]
      · obtain ⟨⟨y, hy, inside, -⟩, -⟩ := h.misses hx ne
        exact inside.length_le.trans (length_le_depth hy)
  · exact length_le_depth (List.mem_append_left _ hx)

theorem rowsOn_cons (path : List Text) (x : Placed) (placed : List Placed) :
    rowsOn path (x :: placed) = (if x.path = path then [x.row] else []) ++ rowsOn path placed := by
  by_cases same : x.path = path <;> simp [rowsOn, same]

theorem rowsOn_map {paths : List (List Text)} (unique : paths.Nodup) (row : List Text → Row)
    (path : List Text) :
    rowsOn path (paths.map fun p => ⟨p, row p⟩) = if path ∈ paths then [row path] else [] := by
  induction paths with
  | nil => rfl
  | cons p paths ih =>
    obtain ⟨fresh, rest⟩ := List.nodup_cons.mp unique
    rw [List.map_cons, rowsOn_cons, ih rest]
    by_cases same : p = path
    · subst same
      simp [fresh]
    · simp [same, Ne.symm same]

theorem Misses.forest_ne_nil (h : Misses placed [name]) {depth : Nat} (level : Nat)
    (deep : ∀ x ∈ placed, x.path.length ≤ depth + 1) :
    forest depth level (below name placed) ≠ [] := by
  obtain ⟨⟨⟨long, r⟩, hx, ⟨rest, rfl⟩, different⟩, -⟩ := h
  have more : rest ≠ [] := by simpa using different
  obtain ⟨second, others, rfl⟩ := List.exists_cons_of_ne_nil more
  have goes_on : second ∈ Target.heads (below name placed) :=
    mem_heads.mpr ⟨⟨second :: others, r⟩, mem_below.mpr ⟨more, hx⟩, others, rfl⟩
  have names : (forest depth level (below name placed)).map Node.name = heads (below name placed) :=
    names_forest (length_below_le deep)
  intro empty
  rw [← names, empty] at goes_on
  exact List.not_mem_nil goes_on

theorem ending_ne_nil (h : name ∈ heads placed) (there : ¬ Misses placed [name]) :
    ending name placed ≠ [] := by
  intro none
  have free : ∀ x ∈ placed, x.path ≠ [name] := rowsOn_eq_nil_iff.mp none
  obtain ⟨x, hx, rest, e⟩ := mem_heads.mp h
  refine there ⟨⟨x, hx, ⟨rest, e.symm⟩, (free x hx).symm⟩, free⟩

theorem forest_append {depth : Nat} (level : Nat) (h : Fills row placed extra)
    (deep : ∀ x ∈ placed, x.path.length ≤ depth) :
    forest depth level (placed ++ extra) = fill row (forest depth level placed) := by
  induction depth generalizing level placed extra row with
  | zero => rfl
  | succ depth ih =>
    rw [forest, forest, h.heads, fill_eq_map, List.map_map]
    refine List.map_congr_left fun name hname => ?_
    have children := ih (level + 1) (h.below name) (length_below_le deep)
    have rows : ending name (placed ++ extra) = ending name placed ++ ending name extra :=
      List.filterMap_append
    rw [Function.comp_apply, rows, below, List.filterMap_append, ← below, ← below, children]
    by_cases missing : Misses placed [name]
    · have none : ending name placed = [] := rowsOn_eq_nil_iff.mpr missing.2
      have one : ending name extra = [row [name]] := h.filled _ (List.cons_ne_nil _ _) missing
      rw [none, one, fill_mkNode_nil row (missing.forest_ne_nil _ deep)]
      rfl
    · have none : ending name extra = [] := h.untouched _ (List.cons_ne_nil _ _) missing
      rw [none, List.append_nil, fill_mkNode row (ending_ne_nil hname missing)]

end forest

section build

variable (ms : List Mapping)

theorem map_path_place : (place ms).map Placed.path = ms.map Mapping.segments := by
  rw [place_eq, List.map_map]
  conv_rhs => rw [← List.zipIdx_map_fst 0 ms, List.map_map]
  rfl

theorem misses_place {path : List Text} (ne : path ≠ []) :
    Misses (place ms) path ↔ path ∈ gapPaths ms := by
  rw [mem_gapPaths, and_iff_right ne, Misses]
  have goes : ∀ P : List Text → Prop, (∃ x ∈ place ms, P x.path) ↔ ∃ m ∈ ms, P m.segments := by
    intro P
    have same : (∃ p ∈ (place ms).map Placed.path, P p) ↔ ∃ p ∈ ms.map Mapping.segments, P p := by
      rw [map_path_place]
    simpa only [List.mem_map, exists_exists_and_eq_and] using same
  have ends : ∀ P : List Text → Prop, (∀ x ∈ place ms, P x.path) ↔ ∀ m ∈ ms, P m.segments := by
    intro P
    rw [← List.forall_mem_map, map_path_place, List.forall_mem_map]
  exact and_congr (goes fun p => path <+: p ∧ path ≠ p) (ends fun p => p ≠ path)

theorem idxOf_gapMapping {i : Nat} (inside : i < (gapPaths ms).length) :
    (complete ms).idxOf (gapMapping (gapPaths ms)[i]) = ms.length + i := by
  have member : (gapPaths ms)[i] ∈ gapPaths ms := List.getElem_mem inside
  have new : gapMapping (gapPaths ms)[i] ∉ ms := fun given =>
    (mem_gapPaths.mp member).2.2 _ given (segments_gapMapping member)
  have position := (nodup_gapMappings ms).idxOf_getElem i (by simpa using inside)
  rw [List.getElem_map] at position
  rw [complete_eq, List.idxOf_append_of_notMem new, position]

theorem zipIdx_gapMappings :
    ((gapPaths ms).map gapMapping).zipIdx ms.length =
      (gapPaths ms).map fun path => (gapMapping path, (complete ms).idxOf (gapMapping path)) := by
  refine List.ext_getElem (by simp) fun i inside _ => ?_
  rw [List.length_zipIdx, List.length_map] at inside
  simp [idxOf_gapMapping ms inside]

def gapsPlaced : List Placed :=
  (gapPaths ms).map fun path => ⟨path, gapRow ms path⟩

theorem place_complete : place (complete ms) = place ms ++ gapsPlaced ms := by
  rw [place_eq, place_eq]
  conv_lhs => rw [complete_eq]
  rw [List.zipIdx_append, List.map_append, Nat.zero_add, zipIdx_gapMappings, List.map_map]
  refine congrArg (_ ++ ·) (List.map_congr_left fun path h => ?_)
  simp only [Function.comp_apply, segments_gapMapping h]
  rfl

theorem fills_gapsPlaced : Fills (gapRow ms) (place ms) (gapsPlaced ms) where
  filled := by
    intro path ne missing
    rw [gapsPlaced, rowsOn_map (nodup_gapPaths ms), if_pos ((misses_place ms ne).mp missing)]
  untouched := by
    intro path ne there
    rw [gapsPlaced, rowsOn_map (nodup_gapPaths ms), if_neg (mt (misses_place ms ne).mpr there)]

/-- Completion fills the components without a defining row and changes nothing else. -/
theorem build_complete : build (complete ms) = fill (gapRow ms) (build ms) := by
  rw [build, place_complete, (fills_gapsPlaced ms).depth,
    forest_append 1 (fills_gapsPlaced ms) fun x => length_le_depth]
  rfl

theorem getElem?_gapRow {path : List Text} (h : path ∈ gapPaths ms) :
    (complete ms)[(gapRow ms path).index]? = some (gapMapping path) := by
  have member : gapMapping path ∈ complete ms := by
    rw [complete_eq]
    exact List.mem_append_right _ (List.mem_map_of_mem h)
  exact List.getElem?_idxOf member

end build

section shadowed

mutual

theorem Node.shadowed_fill {row : List Text → Row} (h : ∀ path, (row path).mapping.isPlaceholder = true)
    (n : Node) : (n.fill row).shadowed = n.shadowed := by
  cases n with
  | component name level rows children =>
    have inner := Target.shadowed_fill (fun path => h (name :: path)) children
    by_cases none : rows = []
    · subst none
      rw [fill_undefined, Node.shadowed, Node.shadowed, inner]
      simp [lostRows, h]
    · rw [fill_defined row none, Node.shadowed, Node.shadowed, inner]
  | leaf name level rows => rfl

theorem shadowed_fill {row : List Text → Row} (h : ∀ path, (row path).mapping.isPlaceholder = true)
    (ns : List Node) : shadowed (fill row ns) = shadowed ns := by
  cases ns with
  | nil => rfl
  | cons n ns => rw [fill, shadowed, shadowed, Node.shadowed_fill h n, shadowed_fill h ns]

end

end shadowed

section undefined

variable {ms : List Mapping} {path : List Text} {n : Node}

theorem isUndefined_mkNode {name : Text} {level : Nat} {rows : List Row} {children : List Node} :
    (mkNode name level rows children).isUndefined = true ↔ rows = [] ∧ children ≠ [] := by
  unfold mkNode
  split
  · next container =>
    rw [Node.isUndefined, Option.isNone_iff_eq_none, definition?_eq_none_iff]
    refine (and_iff_left_of_imp ?_).symm
    rintro rfl
    simpa [allComponents] using container
  · next single =>
    have none : children = [] := by simp_all
    simp [Node.isUndefined, none]

theorem rowsAt_eq_nil_iff : rowsAt ms path = [] ↔ ∀ m ∈ ms, m.segments ≠ path := by
  rw [List.eq_nil_iff_forall_not_mem]
  constructor
  · intro none m hm e
    obtain ⟨i, hi⟩ := List.getElem?_of_mem hm
    exact none ⟨i, m⟩ (mem_rowsAt.mpr ⟨hi, e⟩)
  · intro free r hr
    obtain ⟨given, e⟩ := mem_rowsAt.mp hr
    exact free _ (List.mem_of_getElem? given) e

theorem childrenAt_ne_nil {m : Mapping} (hm : m ∈ ms) (inside : path <+: m.segments)
    (different : path ≠ m.segments) : childrenAt ms path ≠ [] := by
  obtain ⟨rest, e⟩ := inside
  have more : rest ≠ [] := by
    rintro rfl
    exact different (by simpa using e)
  obtain ⟨name, others, rfl⟩ := List.exists_cons_of_ne_nil more
  have next : nextName path m.segments = some name :=
    nextName_eq_some_iff.mpr ⟨others, by simpa using e⟩
  have child : name ∈ (childrenAt ms path).map Node.name := by
    rw [names_childrenAt, mem_distinct, List.mem_filterMap]
    exact ⟨m, hm, next⟩
  rintro none
  simp [none] at child

theorem isUndefined_iff (h : (path, n) ∈ located (build ms)) :
    n.isUndefined = true ↔ path ∈ gapPaths ms := by
  obtain ⟨q, s, e, ⟨m, hm, through⟩, rfl⟩ := mem_located_build.mp h
  rw [isUndefined_mkNode, rowsAt_eq_nil_iff, mem_gapPaths]
  constructor
  · rintro ⟨free, -⟩
    exact ⟨by simp [e], ⟨m, hm, through, (free m hm).symm⟩, free⟩
  · rintro ⟨-, ⟨f, hf, inside, different⟩, free⟩
    exact ⟨free, childrenAt_ne_nil hf inside different⟩

theorem children_ne_nil_of_isUndefined (h : (path, n) ∈ located (build ms))
    (undefined : n.isUndefined = true) : n.children ≠ [] := by
  obtain ⟨q, s, -, -, rfl⟩ := mem_located_build.mp h
  rw [children_mkNode]
  exact (isUndefined_mkNode.mp undefined).2

theorem countP_isUndefined (ms : List Mapping) :
    (located (build ms)).countP (·.2.isUndefined) = (gapPaths ms).length := by
  have unique : (((located (build ms)).filter (·.2.isUndefined)).map Prod.fst).Nodup := by
    have all := nodup_paths_forest (depth (place ms)) 1 (place ms)
    rw [paths_eq_located] at all
    exact (List.filter_sublist.map Prod.fst).nodup all
  have same : (((located (build ms)).filter (·.2.isUndefined)).map Prod.fst).Perm (gapPaths ms) := by
    refine (List.perm_ext_iff_of_nodup unique (nodup_gapPaths ms)).mpr fun path => ?_
    rw [List.mem_map]
    constructor
    · rintro ⟨x, hx, rfl⟩
      obtain ⟨there, undefined⟩ := List.mem_filter.mp hx
      exact (isUndefined_iff there).mp undefined
    · intro gap
      obtain ⟨ne, ⟨m, hm, inside, -⟩, -⟩ := mem_gapPaths.mp gap
      have there : path ∈ paths (build ms) := mem_paths_build.mpr ⟨ne, m, hm, inside⟩
      rw [paths_eq_located] at there
      obtain ⟨x, hx, rfl⟩ := List.mem_map.mp there
      exact ⟨x, List.mem_filter.mpr ⟨hx, (isUndefined_iff hx).mpr gap⟩, rfl⟩
  rw [List.countP_eq_length_filter, ← same.length_eq, List.length_map]

end undefined

end FieldMap.Target
