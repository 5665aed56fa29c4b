import FieldMap.Proofs.TargetNodes

/-!
The roots of a target tree on their own. A root with all that is below it is made from the mappings
whose path begins with its name, and mappings of other roots may stand anywhere between them. Trees
are compared without the places of their rows, since a mapping has another place in a shorter or
reordered list.
-/

namespace FieldMap.Target

def Row.unplaced (r : Row) : Row :=
  { r with index := 0 }

def Placed.unplaced (x : Placed) : Placed :=
  { x with row := x.row.unplaced }

mutual

/-- The node with the mappings of its rows alone. -/
def Node.unplaced : Node → Node
  | .component name level rows children =>
    .component name level (rows.map Row.unplaced) (unplaced children)
  | .leaf name level rows => .leaf name level (rows.map Row.unplaced)

def unplaced : List Node → List Node
  | [] => []
  | n :: ns => n.unplaced :: unplaced ns

end

def through (name : Text) (ms : List Mapping) : List Mapping :=
  ms.filter fun m => m.segments.head? = some name

def root? (name : Text) (ms : List Mapping) : Option Node :=
  (build ms).find? (·.name = name)

def Node.lostMappings (n : Node) : List Mapping :=
  n.shadowed.map Row.mapping

def lostMappings (ns : List Node) : List Mapping :=
  (shadowed ns).map Row.mapping

theorem unplaced_eq_map (ns : List Node) : unplaced ns = ns.map Node.unplaced :=
  Trees.eq_map rfl (fun _ _ => rfl) ns

theorem shadowed_eq_flatMap (ns : List Node) : shadowed ns = ns.flatMap Node.shadowed :=
  Trees.eq_flatMap rfl (fun _ _ => rfl) ns

@[simp] theorem name_unplaced (n : Node) : n.unplaced.name = n.name := by
  cases n <;> rfl

section rows

variable (rows : List Row)

theorem allComponents_unplaced : allComponents (rows.map Row.unplaced) = allComponents rows := by
  simp [allComponents, Row.unplaced, Function.comp_def]

theorem lostRows_unplaced : lostRows (rows.map Row.unplaced) = (lostRows rows).map Row.unplaced := by
  have given : (rows.map Row.unplaced).filter (fun r => !r.mapping.isPlaceholder) =
      (rows.filter fun r => !r.mapping.isPlaceholder).map Row.unplaced := by
    rw [List.filter_map]
    rfl
  unfold lostRows
  rw [given]
  cases rows.filter fun r => !r.mapping.isPlaceholder with
  | nil => rfl
  | cons first others =>
    have value : hasValue first.unplaced = hasValue first := rfl
    simp only [List.map_cons, value]
    split <;> rfl

theorem unplaced_mkNode (name : Text) (level : Nat) (children : List Node) :
    (mkNode name level rows children).unplaced =
      mkNode name level (rows.map Row.unplaced) (unplaced children) := by
  have empty : (unplaced children).isEmpty = children.isEmpty := by
    rw [unplaced_eq_map, List.isEmpty_map]
  unfold mkNode
  rw [allComponents_unplaced, empty]
  split
  · rw [Node.unplaced]
  · rw [Node.unplaced]

end rows

mutual

theorem Node.shadowed_unplaced (n : Node) : n.unplaced.shadowed = n.shadowed.map Row.unplaced := by
  cases n with
  | component name level rows children =>
    rw [Node.unplaced, Node.shadowed, Node.shadowed, lostRows_unplaced, List.map_append,
      shadowed_unplaced children]
  | leaf name level rows => rfl

theorem shadowed_unplaced (ns : List Node) : shadowed (unplaced ns) = (shadowed ns).map Row.unplaced := by
  cases ns with
  | nil => rfl
  | cons n ns =>
    rw [unplaced, shadowed, shadowed, List.map_append, Node.shadowed_unplaced n,
      shadowed_unplaced ns]

end

theorem Node.lostMappings_unplaced (n : Node) : n.unplaced.lostMappings = n.lostMappings := by
  rw [Node.lostMappings, Node.shadowed_unplaced, List.map_map]
  rfl

theorem lostMappings_unplaced (ns : List Node) : lostMappings (unplaced ns) = lostMappings ns := by
  rw [lostMappings, shadowed_unplaced, List.map_map]
  rfl

theorem lostMappings_eq_flatMap (ns : List Node) :
    lostMappings ns = ns.flatMap Node.lostMappings := by
  rw [lostMappings, shadowed_eq_flatMap, List.map_flatMap]
  rfl

section forest

variable (name : Text) (placed : List Placed)

theorem heads_unplaced : heads (placed.map Placed.unplaced) = heads placed := by
  rw [heads, List.filterMap_map]
  rfl

theorem ending_unplaced :
    ending name (placed.map Placed.unplaced) = (ending name placed).map Row.unplaced := by
  rw [ending, ending, List.filterMap_map, List.map_filterMap]
  refine List.filterMap_congr fun x _ => ?_
  by_cases h : x.path = [name] <;> simp [Placed.unplaced, h]

theorem below_unplaced :
    below name (placed.map Placed.unplaced) = (below name placed).map Placed.unplaced := by
  rw [below, below, List.filterMap_map, List.map_filterMap]
  refine List.filterMap_congr fun x _ => ?_
  obtain ⟨path, row⟩ := x
  cases path with
  | nil => rfl
  | cons first rest =>
    cases rest with
    | nil => rfl
    | cons second rest => by_cases h : first = name <;> simp [Placed.unplaced, h]

theorem unplaced_forest (depth level : Nat) :
    unplaced (forest depth level placed) = forest depth level (placed.map Placed.unplaced) := by
  induction depth generalizing level placed with
  | zero => rfl
  | succ depth ih =>
    rw [unplaced_eq_map, forest, forest, heads_unplaced, List.map_map]
    refine List.map_congr_left fun name _ => ?_
    rw [Function.comp_apply, unplaced_mkNode, ending_unplaced, below_unplaced, ih]

end forest

section depth

variable {placed : List Placed}

theorem forest_eq_of_le {depth deeper : Nat} (level : Nat) (h : ∀ x ∈ placed, x.path.length ≤ depth)
    (h' : ∀ x ∈ placed, x.path.length ≤ deeper) :
    forest deeper level placed = forest depth level placed := by
  induction depth generalizing deeper level placed with
  | zero =>
    cases deeper with
    | zero => rfl
    | succ deeper => simp [forest, heads_of_no_names h]
  | succ depth ih =>
    cases deeper with
    | zero => simp [forest, heads_of_no_names h']
    | succ deeper =>
      rw [forest, forest]
      refine List.map_congr_left fun name _ => ?_
      rw [ih (level + 1) (length_below_le h) (length_below_le h')]

end depth

section beginning

variable (name : Text) (placed : List Placed)

def beginning : List Placed :=
  placed.filter fun x => x.path.head? = some name

theorem ending_beginning : ending name (beginning name placed) = ending name placed := by
  rw [ending, ending, beginning, List.filterMap_filter]
  refine List.filterMap_congr fun x _ => ?_
  by_cases h : x.path = [name] <;> simp [h]

theorem below_beginning : below name (beginning name placed) = below name placed := by
  rw [below, below, beginning, List.filterMap_filter]
  refine List.filterMap_congr fun x _ => ?_
  obtain ⟨path, row⟩ := x
  cases path with
  | nil => simp
  | cons first rest =>
    cases rest with
    | nil => simp
    | cons second rest => by_cases h : first = name <;> simp [h]

theorem heads_beginning :
    heads (beginning name placed) = if name ∈ heads placed then [name] else [] := by
  have members : ∀ other, other ∈ heads (beginning name placed) ↔
      name ∈ heads placed ∧ other = name := by
    intro other
    simp only [mem_heads, beginning, List.mem_filter, decide_eq_true_eq]
    constructor
    · rintro ⟨x, ⟨hx, first⟩, rest, path⟩
      rw [path, List.head?_cons, Option.some_inj] at first
      exact ⟨⟨x, hx, rest, first ▸ path⟩, first⟩
    · rintro ⟨⟨x, hx, rest, path⟩, rfl⟩
      exact ⟨x, ⟨hx, by rw [path, List.head?_cons]⟩, rest, path⟩
  split
  · next occurs =>
    refine List.perm_singleton.mp ((List.perm_ext_iff_of_nodup (nodup_distinct _) ?_).mpr ?_)
    · exact List.nodup_singleton name
    · intro other
      rw [List.mem_singleton]
      exact (members other).trans (and_iff_right occurs)
  · next absent =>
    rw [List.eq_nil_iff_forall_not_mem]
    intro other h
    exact absent ((members other).mp h).1

/-- The forest of the rows that begin with a name is the tree of that name in the whole forest. -/
theorem forest_beginning (depth level : Nat) :
    forest depth level (beginning name placed) =
      ((forest depth level placed).find? (·.name = name)).toList := by
  cases depth with
  | zero => rfl
  | succ depth =>
    rw [find?_forest_succ, forest, heads_beginning]
    split
    · rw [List.map_singleton, ending_beginning, below_beginning]
      rfl
    · rfl

end beginning

section build

variable (name : Text) (ms : List Mapping)

def unplacedRows : List Placed :=
  ms.map fun m => ⟨m.segments, ⟨0, m⟩⟩

theorem map_unplaced_place : (place ms).map Placed.unplaced = unplacedRows ms := by
  rw [place_eq, List.map_map, unplacedRows]
  conv_rhs => rw [← List.zipIdx_map_fst 0 ms, List.map_map]
  rfl

theorem beginning_unplacedRows :
    beginning name (unplacedRows ms) = unplacedRows (through name ms) := by
  rw [beginning, unplacedRows, List.filter_map]
  rfl

theorem unplaced_build {depth : Nat} (h : ∀ m ∈ ms, m.segments.length ≤ depth) :
    unplaced (build ms) = forest depth 1 (unplacedRows ms) := by
  rw [build, unplaced_forest, map_unplaced_place]
  apply forest_eq_of_le
  · intro x hx
    obtain ⟨m, hm, rfl⟩ := List.mem_map.mp hx
    exact h m hm
  · intro x hx
    rw [← map_unplaced_place] at hx
    obtain ⟨y, hy, rfl⟩ := List.mem_map.mp hx
    have bound := length_le_depth hy
    exact bound

theorem unplaced_root? :
    (root? name ms).map Node.unplaced = (unplaced (build ms)).find? (·.name = name) := by
  rw [unplaced_eq_map, List.find?_map, root?]
  simp only [Function.comp_def, name_unplaced]

theorem unplaced_build_through :
    unplaced (build (through name ms)) = ((root? name ms).map Node.unplaced).toList := by
  have long : ∀ m ∈ ms, m.segments.length ≤ depth (place ms) := fun m => length_segments_le
  have fewer : ∀ m ∈ through name ms, m.segments.length ≤ depth (place ms) :=
    fun m hm => long m (List.mem_of_mem_filter hm)
  rw [unplaced_build _ fewer, ← beginning_unplacedRows, forest_beginning, unplaced_root?,
    unplaced_build ms long]

theorem unplaced_root?_eq_head? :
    (root? name ms).map Node.unplaced = (unplaced (build (through name ms))).head? := by
  rw [unplaced_build_through, Option.head?_toList]

theorem names_build : (build ms).map Node.name = distinct (ms.filterMap fun m => m.segments.head?) := by
  rw [← childrenAt_nil, names_childrenAt]
  refine congrArg distinct (List.filterMap_congr fun m _ => ?_)
  rw [nextName, if_pos List.nil_prefix, List.head?_eq_getElem?]
  rfl

theorem mem_names_build :
    name ∈ (build ms).map Node.name ↔ ∃ m ∈ ms, m.segments.head? = some name := by
  rw [names_build, mem_distinct, List.mem_filterMap]

theorem nodup_names_build : ((build ms).map Node.name).Nodup := by
  rw [names_build]
  exact nodup_distinct _

theorem root?_of_mem {ms : List Mapping} {n : Node} (h : n ∈ build ms) : root? n.name ms = some n := by
  -- Roots have different names, so each is found by its own.
  cases found : root? n.name ms with
  | none => simpa using List.find?_eq_none.mp found n h
  | some other =>
    have same : other.name = n.name := by simpa using List.find?_some found
    rw [List.inj_on_of_nodup_map (nodup_names_build ms) (List.mem_of_find?_eq_some found) h same]

theorem exists_root {name : Text} {ms : List Mapping} (h : ∃ m ∈ ms, m.segments.head? = some name) :
    ∃ root own, root? name ms = some root ∧ build (through name ms) = [own] ∧
      root.unplaced = own.unplaced := by
  obtain ⟨root, member, rfl⟩ := List.mem_map.mp ((mem_names_build name ms).mpr h)
  have own := unplaced_build_through root.name ms
  rw [root?_of_mem member, Option.map_some, Option.toList_some, unplaced_eq_map,
    List.map_eq_singleton_iff] at own
  obtain ⟨own, only, same⟩ := own
  exact ⟨root, own, root?_of_mem member, only, same.symm⟩

theorem lostMappings_build : lostMappings (build ms) =
    ((build ms).map Node.name).flatMap fun name => lostMappings (build (through name ms)) := by
  rw [lostMappings_eq_flatMap, List.flatMap_map]
  refine List.flatMap_congr fun n member => ?_
  rw [← lostMappings_unplaced, unplaced_build_through, root?_of_mem member, Option.map_some,
    Option.toList_some, lostMappings_eq_flatMap, List.flatMap_singleton, n.lostMappings_unplaced]

theorem pairwise_names_build : ((build ms).map Node.name).Pairwise fun a b =>
    ms.findIdx (·.segments.head? = some a) < ms.findIdx (·.segments.head? = some b) := by
  rw [names_build]
  exact pairwise_distinct_filterMap _ ms

end build

/-- Each root of a tree depends on the mappings through its name alone. It is the only root of the tree
of these mappings; the roots stand in the order in which their names first appear; and the lost
mappings are those of the single roots, one root after the other. So in another list that has the same
mappings through each name, in the same order, no root and none of its lost mappings change. -/
theorem roots_depend_on_own_mappings {ms others : List Mapping}
    (kept : ∀ name, through name others = through name ms) :
    (∀ name, (∃ m ∈ ms, m.segments.head? = some name) →
      ∃ root own, root? name ms = some root ∧ build (through name ms) = [own] ∧
        root.unplaced = own.unplaced) ∧
    (∀ name, name ∈ (build ms).map Node.name ↔ ∃ m ∈ ms, m.segments.head? = some name) ∧
    (((build ms).map Node.name).Pairwise fun a b =>
      ms.findIdx (·.segments.head? = some a) < ms.findIdx (·.segments.head? = some b)) ∧
    (lostMappings (build ms) =
      ((build ms).map Node.name).flatMap fun name => lostMappings (build (through name ms))) ∧
    ∀ name, (root? name others).map Node.unplaced = (root? name ms).map Node.unplaced ∧
      (root? name others).map Node.lostMappings = (root? name ms).map Node.lostMappings := by
  refine ⟨fun name => exists_root, fun name => mem_names_build name ms, pairwise_names_build ms,
    lostMappings_build ms, ?_⟩
  intro name
  have same : (root? name others).map Node.unplaced = (root? name ms).map Node.unplaced := by
    rw [unplaced_root?_eq_head?, unplaced_root?_eq_head?, kept name]
  have lost : ∀ found : Option Node, found.map Node.lostMappings =
      (found.map Node.unplaced).map Node.lostMappings := by
    intro found
    rw [Option.map_map]
    exact congrArg (found.map ·) (funext fun n => n.lostMappings_unplaced.symm)
  refine ⟨same, ?_⟩
  rw [lost, same, ← lost]

theorem through_swap {a b : Mapping} (h : a.segments.head? ≠ b.segments.head?) (name : Text)
    (before after : List Mapping) :
    through name (before ++ a :: b :: after) = through name (before ++ b :: a :: after) := by
  simp only [through, List.filter_append, List.filter_cons, decide_eq_true_eq]
  by_cases first : a.segments.head? = some name
  · have second : b.segments.head? ≠ some name := fun e => h (first.trans e.symm)
    rw [if_neg second, if_pos first, if_neg second]
  · rw [if_neg first, if_neg first]

def orderId : Mapping where
  targetName := "id"
  targetPath := some "Order/id"

def orderItself : Mapping where
  targetName := "Order"

def customerName : Mapping where
  targetName := "name"
  targetPath := some "Customer/name"

def customerItself : Mapping where
  targetName := "Customer"

theorem interleaved_roots :
    (∀ name, through name [customerName, orderId, customerItself, orderItself] =
      through name [orderId, customerName, orderItself, customerItself]) ∧
    (∃ root own,
      root? "Order" [orderId, customerName, orderItself, customerItself] = some root ∧
      build (through "Order" [orderId, customerName, orderItself, customerItself]) = [own] ∧
      root.unplaced = own.unplaced) ∧
    lostMappings (build [orderId, customerName, orderItself, customerItself]) =
      [orderItself, customerItself] ∧
    ∀ name, (root? name [customerName, orderId, customerItself, orderItself]).map Node.unplaced =
      (root? name [orderId, customerName, orderItself, customerItself]).map Node.unplaced := by
  have kept : ∀ name, through name [customerName, orderId, customerItself, orderItself] =
      through name [orderId, customerName, orderItself, customerItself] := by
    intro name
    have first := through_swap (a := orderId) (b := customerName) (by decide +kernel) name []
      [orderItself, customerItself]
    have second := through_swap (a := orderItself) (b := customerItself) (by decide +kernel) name
      [customerName, orderId] []
    exact (first.trans second).symm
  obtain ⟨roots, -, -, -, moved⟩ := roots_depend_on_own_mappings kept
  refine ⟨kept, roots _ ⟨orderId, List.mem_cons_self, by decide +kernel⟩, by decide +kernel, ?_⟩
  intro name
  exact (moved name).1

end FieldMap.Target
