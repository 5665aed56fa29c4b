import FieldMap.Proofs.TargetNodes

/-!
The rows of a target tree. Every given mapping with a name on its path is shown at the node of that
path, or reported as shadowed, and no mapping is shown or reported twice. Both lists are gathered
from the rows of single nodes, which are told apart by their paths.
-/

namespace FieldMap.Target

/-- The rows that a node shows itself: all rows of a leaf, the defining row of a component. -/
def Node.own : Node → List Row
  | .component _ _ rows _ => (definition? rows).toList
  | .leaf _ _ rows => rows

def Node.lost : Node → List Row
  | .component _ _ rows _ => lostRows rows
  | .leaf .. => []

def shownRows (tree : List Node) : List Row :=
  (located tree).flatMap (·.2.own)

mutual

theorem Node.shadowed_eq_located (n : Node) : n.shadowed = n.located.flatMap (·.2.lost) := by
  cases n with
  | component name level rows children =>
    rw [Node.shadowed, Node.located, List.flatMap_cons, List.flatMap_map,
      shadowed_eq_located children]
    rfl
  | leaf name level rows => rfl

theorem shadowed_eq_located (ns : List Node) : shadowed ns = (located ns).flatMap (·.2.lost) := by
  cases ns with
  | nil => rfl
  | cons n ns =>
    rw [shadowed, located, List.flatMap_append, Node.shadowed_eq_located n, shadowed_eq_located ns]

end

theorem definition?_eq_head_filter (rows : List Row) :
    definition? rows =
      (rows.filter fun r => !r.mapping.isPlaceholder).head?.or rows.head? := by
  rw [definition?, List.head?_filter]

theorem lostRows_sublist (rows : List Row) : (lostRows rows).Sublist rows := by
  have given := List.filter_sublist (p := fun r : Row => !r.mapping.isPlaceholder) (l := rows)
  unfold lostRows
  split
  · exact List.nil_sublist rows
  · next first others e =>
    rw [e] at given
    split
    · exact given
    · exact (List.sublist_cons_self first others).trans given

theorem definition?_or_mem_lostRows {rows : List Row} {r : Row} (h : r ∈ rows)
    (given : r.mapping.isPlaceholder = false) :
    definition? rows = some r ∨ r ∈ lostRows rows := by
  have member : r ∈ rows.filter fun r => !r.mapping.isPlaceholder :=
    List.mem_filter.mpr ⟨h, by simp [given]⟩
  rw [definition?_eq_head_filter]
  unfold lostRows
  split
  · next e => simp [e] at member
  · next first others e =>
    rw [e] at member
    rcases List.mem_cons.mp member with rfl | later
    · exact Or.inl (by simp [e])
    · refine Or.inr ?_
      split
      · exact List.mem_cons_of_mem _ later
      · exact later

theorem definition_mem_lostRows_iff {rows : List Row} {r : Row} (unique : rows.Nodup)
    (defines : definition? rows = some r) (given : r.mapping.isPlaceholder = false) :
    r ∈ lostRows rows ↔ hasValue r = true := by
  have nodup := unique.filter fun r => !r.mapping.isPlaceholder
  have member : r ∈ rows.filter fun r => !r.mapping.isPlaceholder :=
    List.mem_filter.mpr ⟨definition?_mem defines, by simp [given]⟩
  rw [definition?_eq_head_filter] at defines
  unfold lostRows
  split
  · next e => simp [e] at member
  · next first others e =>
    rw [e] at defines nodup
    have same : first = r := by simpa using defines
    subst same
    have fresh := (List.nodup_cons.mp nodup).1
    by_cases value : hasValue first = true <;> simp [value, fresh]

section rowsAt

variable {ms : List Mapping} {path : List Text} {r : Row}

theorem mem_rowsAt : r ∈ rowsAt ms path ↔ ms[r.index]? = some r.mapping ∧ r.mapping.segments = path := by
  obtain ⟨index, mapping⟩ := r
  simp only [rowsAt, List.mem_map, List.mem_filter, decide_eq_true_eq]
  constructor
  · rintro ⟨⟨m, i⟩, ⟨h, rfl⟩, e⟩
    cases e
    exact ⟨List.mem_zipIdx_iff_getElem?.mp h, rfl⟩
  · rintro ⟨h, rfl⟩
    exact ⟨(mapping, index), ⟨List.mem_zipIdx_iff_getElem?.mpr h, rfl⟩, rfl⟩

theorem pairwise_rowsAt : (rowsAt ms path).Pairwise (·.index < ·.index) := by
  have order : ms.zipIdx.Pairwise (·.2 < ·.2) := by
    have numbers : (ms.zipIdx.map Prod.snd).Pairwise (· < ·) := by
      rw [List.zipIdx_map_snd]
      exact List.pairwise_lt_range'
    exact List.pairwise_map.mp numbers
  exact List.pairwise_map.mpr (order.filter _)

theorem nodup_index_rowsAt : ((rowsAt ms path).map Row.index).Nodup :=
  List.pairwise_map.mpr (pairwise_rowsAt.imp Nat.ne_of_lt)

end rowsAt

section nodes

variable {ms : List Mapping} {x : List Text × Node}

theorem node_eq {path : List Text} {n : Node} (h : (path, n) ∈ located (build ms)) :
    (∃ name level, n = .leaf name level (rowsAt ms path)) ∨
      ∃ name level children, n = .component name level (rowsAt ms path) children := by
  obtain ⟨q, s, _, _, node⟩ := mem_located_build.mp h
  rw [mkNode] at node
  split at node
  · exact Or.inr ⟨_, _, _, node⟩
  · exact Or.inl ⟨_, _, node⟩

theorem own_sublist (h : x ∈ located (build ms)) : x.2.own.Sublist (rowsAt ms x.1) := by
  rcases node_eq h with ⟨name, level, e⟩ | ⟨name, level, children, e⟩
  · rw [e]
    exact List.Sublist.refl _
  · rw [e, Node.own]
    cases defines : definition? (rowsAt ms x.1) with
    | none => exact List.nil_sublist _
    | some r => exact List.singleton_sublist.mpr (definition?_mem defines)

theorem lost_sublist (h : x ∈ located (build ms)) : x.2.lost.Sublist (rowsAt ms x.1) := by
  rcases node_eq h with ⟨name, level, e⟩ | ⟨name, level, children, e⟩
  · rw [e]
    exact List.nil_sublist _
  · rw [e]
    exact lostRows_sublist _

theorem nodup_index_flatMap {rows : Node → List Row}
    (sub : ∀ x ∈ located (build ms), (rows x.2).Sublist (rowsAt ms x.1)) :
    (((located (build ms)).flatMap (rows ·.2)).map Row.index).Nodup := by
  -- Rows gathered from the nodes of a tree, each node giving rows of its own path, are all
  -- different: two rows of one mapping would have to come from nodes with the same path.
  rw [List.map_flatMap, List.nodup_flatMap]
  constructor
  · intro x hx
    exact ((sub x hx).map Row.index).nodup nodup_index_rowsAt
  · have paths := nodup_paths_forest (depth (place ms)) 1 (place ms)
    rw [paths_eq_located] at paths
    refine (List.pairwise_map.mp paths).imp_of_mem ?_
    intro x y hx hy different i hi hj
    obtain ⟨r, hr, rfl⟩ := List.mem_map.mp hi
    obtain ⟨r', hr', same⟩ := List.mem_map.mp hj
    have first := mem_rowsAt.mp ((sub x hx).subset hr)
    have second := mem_rowsAt.mp ((sub y hy).subset hr')
    rw [same, first.1] at second
    exact different (by rw [← first.2, ← second.2, Option.some.inj second.1])

theorem mem_flatMap_located_iff {rows : Node → List Row} {r : Row}
    (sub : ∀ x ∈ located (build ms), (rows x.2).Sublist (rowsAt ms x.1))
    (h : x ∈ located (build ms)) (path : x.1 = r.mapping.segments) :
    r ∈ (located (build ms)).flatMap (rows ·.2) ↔ r ∈ rows x.2 := by
  rw [List.mem_flatMap]
  refine ⟨?_, fun hr => ⟨x, h, hr⟩⟩
  rintro ⟨y, hy, hr⟩
  have there := mem_rowsAt.mp ((sub y hy).subset hr)
  have same : x = y := by
    obtain ⟨q, s, e, _, node⟩ := mem_located_build.mp h
    obtain ⟨q', s', e', _, node'⟩ := mem_located_build.mp hy
    have paths : x.1 = y.1 := path.trans there.2
    rw [paths, e'] at e
    obtain ⟨_, names⟩ := List.append_inj' e rfl
    refine Prod.ext paths ?_
    rw [node, node', paths, List.singleton_inj.mp names]
  rwa [same]

end nodes

def IsFirst (ms : List Mapping) (p : Mapping → Prop) (r : Row) : Prop :=
  ms[r.index]? = some r.mapping ∧ p r.mapping ∧ ∀ j < r.index, ∀ m, ms[j]? = some m → ¬ p m

theorem isFirst_of_find? {ms : List Mapping} {path : List Text} {p : Row → Bool} {r : Row}
    (h : (rowsAt ms path).find? p = some r) {q : Mapping → Prop}
    (same : ∀ r : Row, p r = true ↔ q r.mapping) :
    IsFirst ms (fun m => m.segments = path ∧ q m) r := by
  have place := mem_rowsAt.mp (List.mem_of_find?_eq_some h)
  obtain ⟨hp, before, after, e, fails⟩ := List.find?_eq_some_iff_append.mp h
  refine ⟨place.1, ⟨place.2, (same r).mp hp⟩, ?_⟩
  rintro j earlier m hm ⟨hpath, hq⟩
  have member : (⟨j, m⟩ : Row) ∈ rowsAt ms path := mem_rowsAt.mpr ⟨hm, hpath⟩
  have order : (rowsAt ms path).Pairwise (·.index < ·.index) := pairwise_rowsAt
  rw [e] at member order
  -- Before the row that is found the property fails, after it the numbers are greater.
  rcases List.mem_append.mp member with hb | hb
  · have failed := fails _ hb
    rw [(same ⟨j, m⟩).mpr hq] at failed
    simp at failed
  · rcases List.mem_cons.mp hb with rfl | hb
    · exact Nat.lt_irrefl _ earlier
    · have later := (List.pairwise_cons.mp (List.pairwise_append.mp order).2.1).1 _ hb
      exact Nat.lt_asymm earlier later

/-- A component is defined by the first given mapping on its path, or if all are placeholders by
the first of them. -/
def IsDefinition (ms : List Mapping) (path : List Text) (r : Row) : Prop :=
  IsFirst ms (fun m => m.segments = path ∧ m.isPlaceholder = false) r ∨
    (∀ m ∈ ms, m.segments = path → m.isPlaceholder = true) ∧
      IsFirst ms (fun m => m.segments = path ∧ m.isPlaceholder = true) r

theorem isDefinition_of_definition? {ms : List Mapping} {path : List Text} {r : Row}
    (h : definition? (rowsAt ms path) = some r) : IsDefinition ms path r := by
  rcases Option.or_eq_some_iff.mp h with h | ⟨none, h⟩
  · exact Or.inl (isFirst_of_find? h (by simp))
  · have gaps : ∀ m ∈ ms, m.segments = path → m.isPlaceholder = true := by
      intro m hm hpath
      obtain ⟨i, hi⟩ := List.getElem?_of_mem hm
      simpa using List.find?_eq_none.mp none ⟨i, m⟩ (mem_rowsAt.mpr ⟨hi, hpath⟩)
    refine Or.inr ⟨gaps, isFirst_of_find? (p := fun r => r.mapping.isPlaceholder) ?_ (by simp)⟩
    obtain ⟨rest, e⟩ := List.head?_eq_some_iff.mp h
    have place := mem_rowsAt.mp (List.mem_of_mem_head? h)
    rw [e, List.find?_cons_of_pos]
    exact gaps _ (List.mem_of_getElem? place.1) place.2

/-- How the mapping `m` with the number `i` appears in the tree of its list. -/
structure Accounted (ms : List Mapping) (i : Nat) (m : Mapping) : Prop where
  shown_le_one : ((shownRows (build ms)).map Row.index).count i ≤ 1
  shadowed_le_one : ((shadowed (build ms)).map Row.index).count i ≤ 1
  /-- A number in either list stands for the mapping with that number. -/
  faithful : ∀ r ∈ shownRows (build ms) ++ shadowed (build ms), ms[r.index]? = some r.mapping
  shown_or_shadowed : m.isPlaceholder = false →
    ⟨i, m⟩ ∈ shownRows (build ms) ∨ ⟨i, m⟩ ∈ shadowed (build ms)
  /-- Both at once happens to the definitions of components that have a value, and to no others. -/
  shown_and_shadowed_iff : m.isPlaceholder = false →
    (⟨i, m⟩ ∈ shownRows (build ms) ∧ ⟨i, m⟩ ∈ shadowed (build ms) ↔
      (∃ path name level rows children,
        (path, .component name level rows children) ∈ located (build ms) ∧
          definition? rows = some ⟨i, m⟩) ∧
        m.fieldType ≠ .component ∧ m.valueType ≠ .empty)
  has_node : ∃ n, (m.segments, n) ∈ located (build ms)
  leaf : ∀ name level rows, (m.segments, .leaf name level rows) ∈ located (build ms) →
    rows = rowsAt ms m.segments
  component : ∀ name level rows children,
    (m.segments, .component name level rows children) ∈ located (build ms) →
      ∃ r, definition? rows = some r ∧ IsDefinition ms m.segments r ∧
        ∀ j m', ms[j]? = some m' → m'.segments = m.segments → m'.isPlaceholder = false →
          ⟨j, m'⟩ ≠ r → ⟨j, m'⟩ ∈ shadowed (build ms)
  own_path : ∀ x ∈ located (build ms), ∀ r ∈ x.2.own, r.index = i → x.1 = m.segments

section accounted

variable {ms : List Mapping} {i : Nat} {m : Mapping} {x : List Text × Node}

theorem exists_node (hi : ms[i]? = some m) (named : m.segments ≠ []) :
    ∃ n, (m.segments, n) ∈ located (build ms) := by
  obtain ⟨q, s, e⟩ := List.eq_nil_or_concat m.segments |>.resolve_left named
  rw [List.concat_eq_append] at e
  exact ⟨_, mem_located_build.mpr
    ⟨q, s, e, ⟨m, List.mem_of_getElem? hi, List.prefix_refl _⟩, rfl⟩⟩

theorem mem_shownRows_iff {r : Row} (h : x ∈ located (build ms)) (path : x.1 = r.mapping.segments) :
    r ∈ shownRows (build ms) ↔ r ∈ x.2.own :=
  mem_flatMap_located_iff (fun _ => own_sublist) h path

theorem mem_shadowed_iff {r : Row} (h : x ∈ located (build ms)) (path : x.1 = r.mapping.segments) :
    r ∈ shadowed (build ms) ↔ r ∈ x.2.lost := by
  rw [shadowed_eq_located]
  exact mem_flatMap_located_iff (fun _ => lost_sublist) h path

theorem nodup_rowsAt (path : List Text) : (rowsAt ms path).Nodup :=
  nodup_index_rowsAt.of_map Row.index

theorem component_rows {path : List Text} {name : Text} {level : Nat} {rows : List Row}
    {children : List Node} (h : (path, .component name level rows children) ∈ located (build ms)) :
    rows = rowsAt ms path := by
  rcases node_eq h with ⟨_, _, e⟩ | ⟨_, _, _, e⟩
  · cases e
  · exact (Node.component.inj e).2.2.1

theorem shown_or_shadowed_of_given (hi : ms[i]? = some m) (named : m.segments ≠ [])
    (given : m.isPlaceholder = false) :
    ⟨i, m⟩ ∈ shownRows (build ms) ∨ ⟨i, m⟩ ∈ shadowed (build ms) := by
  obtain ⟨n, hn⟩ := exists_node hi named
  have member : (⟨i, m⟩ : Row) ∈ rowsAt ms m.segments := mem_rowsAt.mpr ⟨hi, rfl⟩
  rw [mem_shownRows_iff hn rfl, mem_shadowed_iff hn rfl]
  rcases node_eq hn with ⟨name, level, e⟩ | ⟨name, level, children, e⟩
  · rw [e]
    exact Or.inl member
  · rw [e]
    refine (definition?_or_mem_lostRows member given).imp ?_ id
    intro defines
    simp [Node.own, defines]

theorem shown_and_shadowed_iff_definition (hi : ms[i]? = some m) (named : m.segments ≠ [])
    (given : m.isPlaceholder = false) :
    ⟨i, m⟩ ∈ shownRows (build ms) ∧ ⟨i, m⟩ ∈ shadowed (build ms) ↔
      (∃ path name level rows children,
        (path, .component name level rows children) ∈ located (build ms) ∧
          definition? rows = some ⟨i, m⟩) ∧
        m.fieldType ≠ .component ∧ m.valueType ≠ .empty := by
  have value : hasValue ⟨i, m⟩ = true ↔ m.fieldType ≠ .component ∧ m.valueType ≠ .empty := by
    simp [hasValue, Mapping.isComponent]
  rw [← value]
  constructor
  · rintro ⟨shown, lost⟩
    obtain ⟨n, hn⟩ := exists_node hi named
    rw [mem_shownRows_iff hn rfl] at shown
    rw [mem_shadowed_iff hn rfl] at lost
    rcases node_eq hn with ⟨name, level, e⟩ | ⟨name, level, children, e⟩
    · rw [e] at lost
      simp [Node.lost] at lost
    · subst e
      have defines : definition? (rowsAt ms m.segments) = some ⟨i, m⟩ := by
        simpa [Node.own] using shown
      exact ⟨⟨m.segments, name, level, _, children, hn, defines⟩,
        (definition_mem_lostRows_iff (nodup_rowsAt _) defines given).mp lost⟩
  · rintro ⟨⟨path, name, level, rows, children, hn, defines⟩, hasvalue⟩
    have rowsEq := component_rows hn
    have there := mem_rowsAt.mp (rowsEq ▸ definition?_mem defines)
    rw [mem_shownRows_iff hn there.2.symm, mem_shadowed_iff hn there.2.symm]
    refine ⟨by simp [Node.own, defines], ?_⟩
    refine (definition_mem_lostRows_iff ?_ defines given).mpr hasvalue
    rw [rowsEq]
    exact nodup_rowsAt _

theorem component_definition {name : Text} {level : Nat} {rows : List Row} {children : List Node}
    (hi : ms[i]? = some m)
    (hn : (m.segments, .component name level rows children) ∈ located (build ms)) :
    ∃ r, definition? rows = some r ∧ IsDefinition ms m.segments r ∧
      ∀ j m', ms[j]? = some m' → m'.segments = m.segments → m'.isPlaceholder = false →
        ⟨j, m'⟩ ≠ r → ⟨j, m'⟩ ∈ shadowed (build ms) := by
  have rowsEq := component_rows hn
  have member : (⟨i, m⟩ : Row) ∈ rows := rowsEq ▸ mem_rowsAt.mpr ⟨hi, rfl⟩
  obtain ⟨r, defines⟩ : ∃ r, definition? rows = some r := by
    rw [← Option.isSome_iff_exists, definition?]
    cases rows with
    | nil => simp at member
    | cons first others => simp
  refine ⟨r, defines, isDefinition_of_definition? (rowsEq ▸ defines), ?_⟩
  intro j m' hj path given other
  have there : (⟨j, m'⟩ : Row) ∈ rows := rowsEq ▸ mem_rowsAt.mpr ⟨hj, path⟩
  rw [mem_shadowed_iff hn path.symm]
  refine (definition?_or_mem_lostRows there given).resolve_left ?_
  intro same
  exact other (Option.some.inj (same.symm.trans defines))

/-- Building a tree neither loses nor doubles a mapping whose path has a name. -/
theorem build_accounts_for_mapping (hi : ms[i]? = some m) (named : m.segments ≠ []) :
    Accounted ms i m where
  shown_le_one :=
    List.nodup_iff_count_le_one.mp (nodup_index_flatMap fun _ => own_sublist) i
  shadowed_le_one := by
    rw [shadowed_eq_located]
    exact List.nodup_iff_count_le_one.mp (nodup_index_flatMap fun _ => lost_sublist) i
  faithful := by
    intro r hr
    rw [shadowed_eq_located] at hr
    rcases List.mem_append.mp hr with hr | hr
    · obtain ⟨x, hx, hr⟩ := List.mem_flatMap.mp hr
      exact (mem_rowsAt.mp ((own_sublist hx).subset hr)).1
    · obtain ⟨x, hx, hr⟩ := List.mem_flatMap.mp hr
      exact (mem_rowsAt.mp ((lost_sublist hx).subset hr)).1
  shown_or_shadowed := shown_or_shadowed_of_given hi named
  shown_and_shadowed_iff := shown_and_shadowed_iff_definition hi named
  has_node := exists_node hi named
  leaf := by
    intro name level rows hn
    rcases node_eq hn with ⟨_, _, e⟩ | ⟨_, _, _, e⟩
    · exact (Node.leaf.inj e).2.2
    · cases e
  component := by
    intro name level rows children hn
    exact component_definition hi hn
  own_path := by
    intro x hx r hr number
    have there := mem_rowsAt.mp ((own_sublist hx).subset hr)
    rw [number, hi] at there
    rw [← there.2, Option.some.inj there.1]

end accounted

def customerRows : List Mapping :=
  [Mapping.placeholder "Customer",
    { sourcePath := "//Customer", targetName := "Customer" },
    { sourcePath := "//Customer/@id", targetName := "id", targetPath := some "Customer/id" },
    { sourcePath := "//Name", targetName := "Customer" }]

theorem customerRows_accounted :
    customerRows[1]? = some { sourcePath := "//Customer", targetName := "Customer" } ∧
      Mapping.segments { sourcePath := "//Customer", targetName := "Customer" } ≠ [] ∧
      Accounted customerRows 1 { sourcePath := "//Customer", targetName := "Customer" } :=
  ⟨rfl, by decide, build_accounts_for_mapping rfl (by decide)⟩

end FieldMap.Target
