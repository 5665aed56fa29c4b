import Mathlib.Data.List.Nodup
import Mathlib.Data.List.Infix
import FieldMap.Proofs.Trees
import FieldMap.Target.Tree

/-!
The nodes of a target tree with the paths that lead to them. One statement says which nodes there are:
at the path `q ++ [s]` stands the node made from the rows that end there and the rows that go on
below, provided some row comes through. What is said later about paths, rows and levels is read off
this statement.
-/

namespace FieldMap.Target

mutual

def Node.located : Node → List (List Text × Node)
  | .component name level rows children =>
    ([name], .component name level rows children) ::
      (located children).map fun x => (name :: x.1, x.2)
  | .leaf name level rows => [([name], .leaf name level rows)]

def located : List Node → List (List Text × Node)
  | [] => []
  | n :: ns => n.located ++ located ns

end

theorem located_eq_flatMap (ns : List Node) : located ns = ns.flatMap Node.located :=
  Trees.eq_flatMap rfl (fun _ _ => rfl) ns

mutual

theorem Node.paths_eq_located (n : Node) : n.paths = n.located.map Prod.fst := by
  cases n with
  | component name level rows children =>
    rw [Node.paths, Node.located, paths_eq_located children]
    simp
  | leaf name level rows => rfl

theorem paths_eq_located (ns : List Node) : paths ns = (located ns).map Prod.fst := by
  cases ns with
  | nil => rfl
  | cons n ns => rw [paths, located, List.map_append, Node.paths_eq_located n, paths_eq_located ns]

end

section mkNode

variable (name : Text) (level : Nat) (rows : List Row) (children : List Node)

@[simp] theorem name_mkNode : (mkNode name level rows children).name = name := by
  unfold mkNode
  split <;> rfl

@[simp] theorem level_mkNode : (mkNode name level rows children).level = level := by
  unfold mkNode
  split <;> rfl

@[simp] theorem children_mkNode : (mkNode name level rows children).children = children := by
  unfold mkNode
  split
  · rfl
  · next h => simp_all [Node.children]

theorem located_mkNode : (mkNode name level rows children).located =
    ([name], mkNode name level rows children) ::
      (located children).map fun x => (name :: x.1, x.2) := by
  unfold mkNode
  split
  · rw [Node.located]
  · next h =>
    have none : children = [] := by simp_all
    simp [Node.located, none, located]

end mkNode

section distinct

variable {α β : Type} [DecidableEq α]

@[simp] theorem mem_distinct {a : α} {as : List α} : a ∈ distinct as ↔ a ∈ as := by
  induction as with
  | nil => rfl
  | cons b bs ih =>
    by_cases h : a = b <;> simp [distinct, ih, h]

theorem nodup_distinct (as : List α) : (distinct as).Nodup := by
  induction as with
  | nil => exact List.nodup_nil
  | cons b bs ih =>
    refine List.nodup_cons.mpr ⟨?_, ih.filter _⟩
    simp

theorem pairwise_distinct_filterMap (f : β → Option α) (bs : List β) :
    (distinct (bs.filterMap f)).Pairwise fun x y =>
      bs.findIdx (f · = some x) < bs.findIdx (f · = some y) := by
  induction bs with
  | nil => exact List.Pairwise.nil
  | cons b bs ih =>
    cases hb : f b with
    | none =>
      rw [List.filterMap_cons_none hb]
      refine ih.imp ?_
      intro x y h
      simpa [List.findIdx_cons, hb] using h
    | some a =>
      rw [List.filterMap_cons_some hb, distinct, List.pairwise_cons]
      refine ⟨?_, (ih.filter _).imp_of_mem ?_⟩
      · intro y hy
        have other : y ≠ a := by simpa using (List.mem_filter.mp hy).2
        simp [List.findIdx_cons, hb, Ne.symm other]
      · intro x y hx hy h
        have hx' : x ≠ a := by simpa using (List.mem_filter.mp hx).2
        have hy' : y ≠ a := by simpa using (List.mem_filter.mp hy).2
        simpa [List.findIdx_cons, hb, Ne.symm hx', Ne.symm hy'] using h

end distinct

/-- The rows that go on below a path, with the names after it. -/
def under : (path : List Text) → List Placed → List Placed
  | [], placed => placed
  | name :: names, placed => under names (below name placed)

@[simp] theorem mem_heads {name : Text} {placed : List Placed} :
    name ∈ heads placed ↔ ∃ x ∈ placed, ∃ rest, x.path = name :: rest := by
  simp only [heads, mem_distinct, List.mem_filterMap, List.head?_eq_some_iff]

theorem mem_below {name : Text} {placed : List Placed} {x : Placed} :
    x ∈ below name placed ↔ x.path ≠ [] ∧ ⟨name :: x.path, x.row⟩ ∈ placed := by
  obtain ⟨path, row⟩ := x
  simp only [below, List.mem_filterMap]
  constructor
  · rintro ⟨⟨long, row'⟩, hy, h⟩
    match long, h with
    | first :: second :: rest, h =>
      obtain ⟨rfl, e⟩ := Option.ite_some_none_eq_some.mp h
      cases e
      exact ⟨List.cons_ne_nil _ _, hy⟩
  · rintro ⟨ne, hy⟩
    obtain ⟨second, rest, rfl⟩ := List.exists_cons_of_ne_nil ne
    exact ⟨_, hy, if_pos rfl⟩

def nextName (path names : List Text) : Option Text :=
  if path <+: names then names[path.length]? else none

theorem nextName_eq_some_iff {path names : List Text} {name : Text} :
    nextName path names = some name ↔ path ++ [name] <+: names := by
  unfold nextName
  constructor
  · intro h
    obtain ⟨⟨rest, rfl⟩, hn⟩ := Option.ite_none_right_eq_some.mp h
    rw [List.getElem?_append_right (Nat.le_refl _), Nat.sub_self, ← List.head?_eq_getElem?,
      List.head?_eq_some_iff] at hn
    obtain ⟨last, rfl⟩ := hn
    exact ⟨last, by simp⟩
  · rintro ⟨rest, rfl⟩
    simp [List.append_assoc]

theorem nextName_cons_cons (name : Text) (path names : List Text) :
    nextName (name :: path) (name :: names) = nextName path names := by
  simp [nextName]

theorem nextName_cons_of_ne {name first : Text} (h : name ≠ first) (path names : List Text) :
    nextName (name :: path) (first :: names) = none := by
  simp [nextName, h]

theorem heads_under (path : List Text) (placed : List Placed) :
    heads (under path placed) = distinct (placed.filterMap fun x => nextName path x.path) := by
  refine congrArg distinct ?_
  induction path generalizing placed with
  | nil =>
    refine List.filterMap_congr ?_
    intro x _
    rw [nextName, if_pos List.nil_prefix, List.head?_eq_getElem?]
    rfl
  | cons name names ih =>
    rw [under, ih, below, List.filterMap_filterMap]
    refine List.filterMap_congr ?_
    rintro ⟨path, row⟩ _
    match path with
    | [] => simp [nextName]
    | [first] =>
      by_cases h : name = first
      · subst h
        cases names <;> simp [nextName]
      · simp [nextName_cons_of_ne h]
    | first :: second :: rest =>
      by_cases h : first = name
      · subst h
        simp [nextName_cons_cons]
      · simp [h, nextName_cons_of_ne (Ne.symm h)]

theorem ending_under (path : List Text) (name : Text) (placed : List Placed) :
    ending name (under path placed) =
      placed.filterMap fun x => if x.path = path ++ [name] then some x.row else none := by
  induction path generalizing placed with
  | nil => rfl
  | cons first names ih =>
    rw [under, ih, below, List.filterMap_filterMap]
    refine List.filterMap_congr ?_
    rintro ⟨path, row⟩ _
    match path with
    | [] => simp
    | [only] => simp
    | head :: second :: rest =>
      by_cases h : head = first <;> simp [h]

theorem mem_located_forest_succ {depth level : Nat} {placed : List Placed} {path : List Text}
    {n : Node} :
    (path, n) ∈ located (forest (depth + 1) level placed) ↔
      ∃ name ∈ heads placed,
        path = [name] ∧ n = mkNode name level (ending name placed)
          (forest depth (level + 1) (below name placed)) ∨
        ∃ rest, path = name :: rest ∧
          (rest, n) ∈ located (forest depth (level + 1) (below name placed)) := by
  rw [forest, located_eq_flatMap, List.flatMap_map, List.mem_flatMap]
  refine exists_congr fun name => and_congr_right fun _ => ?_
  rw [located_mkNode, List.mem_cons, List.mem_map]
  refine or_congr (by simp [Prod.ext_iff]) ?_
  constructor
  · rintro ⟨⟨rest, n'⟩, h, e⟩
    cases e
    exact ⟨rest, rfl, h⟩
  · rintro ⟨rest, rfl, h⟩
    exact ⟨(rest, n), h, rfl⟩

/-- The node of a forest at the path `q ++ [s]`. -/
def nodeAt (depth level : Nat) (placed : List Placed) (q : List Text) (s : Text) : Node :=
  mkNode s (level + q.length) (ending s (under q placed))
    (forest (depth - (q.length + 1)) (level + q.length + 1) (under (q ++ [s]) placed))

theorem nodeAt_cons (depth level : Nat) (placed : List Placed) (name : Text) (q : List Text)
    (s : Text) : nodeAt (depth + 1) level placed (name :: q) s =
      nodeAt depth (level + 1) (below name placed) q s := by
  have deeper : level + (q.length + 1) = level + 1 + q.length := by omega
  rw [nodeAt, nodeAt, List.length_cons, Nat.add_sub_add_right, deeper]
  rfl

/-- The nodes of a forest: one at each path that a row goes through, made from the rows there. -/
theorem mem_located_forest {depth level : Nat} {placed : List Placed} {path : List Text} {n : Node} :
    (path, n) ∈ located (forest depth level placed) ↔
      ∃ q s, path = q ++ [s] ∧ q.length < depth ∧ s ∈ heads (under q placed) ∧
        n = nodeAt depth level placed q s := by
  -- Each level of the forest takes the first name off the path.
  induction depth generalizing level placed path with
  | zero => simp [forest, located]
  | succ depth ih =>
    rw [mem_located_forest_succ]
    constructor
    · rintro ⟨name, hname, ⟨rfl, rfl⟩ | ⟨rest, rfl, h⟩⟩
      · exact ⟨[], name, rfl, Nat.succ_pos _, hname, rfl⟩
      · obtain ⟨q, s, rfl, hq, hs, rfl⟩ := ih.mp h
        exact ⟨name :: q, s, rfl, Nat.succ_lt_succ hq, hs, (nodeAt_cons ..).symm⟩
    · rintro ⟨q, s, rfl, hq, hs, rfl⟩
      cases q with
      | nil => exact ⟨s, hs, Or.inl ⟨rfl, rfl⟩⟩
      | cons name q =>
        have through : name ∈ heads placed := by
          rw [heads_under, mem_distinct, List.mem_filterMap] at hs
          obtain ⟨x, hx, hn⟩ := hs
          obtain ⟨last, e⟩ := nextName_eq_some_iff.mp hn
          exact mem_heads.mpr ⟨x, hx, _, e.symm⟩
        refine ⟨name, through, Or.inr ⟨q ++ [s], rfl, ih.mpr ⟨q, s, rfl, ?_, hs, nodeAt_cons ..⟩⟩⟩
        simpa using hq

theorem ne_nil_of_mem_paths {depth level : Nat} {placed : List Placed} {path : List Text}
    (h : path ∈ paths (forest depth level placed)) : path ≠ [] := by
  rw [paths_eq_located] at h
  obtain ⟨x, hx, rfl⟩ := List.mem_map.mp h
  obtain ⟨q, s, e, _⟩ := mem_located_forest.mp hx
  rw [e]
  simp

theorem names_forest_succ (depth level : Nat) (placed : List Placed) :
    (forest (depth + 1) level placed).map Node.name = heads placed := by
  simp [forest, Function.comp_def]

theorem nodup_paths_forest (depth level : Nat) (placed : List Placed) :
    (paths (forest depth level placed)).Nodup := by
  -- No path is taken by two nodes: siblings have different names.
  induction depth generalizing level placed with
  | zero => exact List.nodup_nil
  | succ depth ih =>
    rw [paths_eq_located, forest, located_eq_flatMap, List.flatMap_map, List.map_flatMap,
      List.nodup_flatMap]
    refine ⟨?_, (nodup_distinct _).imp ?_⟩
    -- Below one root the paths differ after its name, between two roots in their names.
    · intro name _
      have inner := ih (level + 1) (below name placed)
      rw [paths_eq_located] at inner
      rw [located_mkNode, List.map_cons, List.map_map, List.nodup_cons]
      refine ⟨?_, ?_⟩
      · intro h
        obtain ⟨x, hx, e⟩ := List.mem_map.mp h
        have member : x.1 ∈ paths (forest depth (level + 1) (below name placed)) := by
          rw [paths_eq_located]
          exact List.mem_map_of_mem hx
        exact ne_nil_of_mem_paths member ((List.cons_inj_right name).mp e)
      · rw [show (Prod.fst ∘ fun x : List Text × Node => (name :: x.1, x.2)) =
          List.cons name ∘ Prod.fst from rfl, ← List.map_map]
        exact inner.map (List.cons_injective)
    · intro a b different path ha hb
      have first : ∀ name, path ∈ (mkNode name level (ending name placed)
          (forest depth (level + 1) (below name placed))).located.map Prod.fst →
          path.head? = some name := by
        intro name h
        rw [located_mkNode, List.map_cons, List.map_map, List.mem_cons, List.mem_map] at h
        rcases h with rfl | ⟨x, _, rfl⟩ <;> rfl
      exact different (Option.some.inj ((first a ha).symm.trans (first b hb)))

theorem length_below_le {depth : Nat} {name : Text} {placed : List Placed}
    (h : ∀ x ∈ placed, x.path.length ≤ depth + 1) : ∀ x ∈ below name placed, x.path.length ≤ depth := by
  intro x hx
  have long := h _ (mem_below.mp hx).2
  rw [List.length_cons] at long
  omega

theorem length_under_le {depth : Nat} {path : List Text} {placed : List Placed}
    (h : ∀ x ∈ placed, x.path.length ≤ depth) :
    ∀ x ∈ under path placed, x.path.length ≤ depth - path.length := by
  induction path generalizing depth placed with
  | nil => simpa [under] using h
  | cons name names ih =>
    intro x hx
    cases depth with
    | zero =>
      have short : ∀ y ∈ below name placed, y.path.length ≤ 0 := by
        intro y hy
        have long := h _ (mem_below.mp hy).2
        simp at long
      have shorter := ih short x hx
      simpa using shorter
    | succ depth =>
      have shorter := ih (length_below_le h) x hx
      rw [List.length_cons]
      omega

theorem heads_of_no_names {placed : List Placed} (h : ∀ x ∈ placed, x.path.length ≤ 0) :
    heads placed = [] := by
  rw [List.eq_nil_iff_forall_not_mem]
  intro name hn
  obtain ⟨x, hx, rest, e⟩ := mem_heads.mp hn
  have short := h x hx
  rw [e, List.length_cons] at short
  omega

theorem names_forest {depth level : Nat} {placed : List Placed}
    (h : ∀ x ∈ placed, x.path.length ≤ depth) :
    (forest depth level placed).map Node.name = heads placed := by
  cases depth with
  | succ depth => exact names_forest_succ depth level placed
  | zero => rw [heads_of_no_names h, forest, List.map_nil]

theorem mem_paths_forest_succ {depth level : Nat} {placed : List Placed} {path : List Text} :
    path ∈ paths (forest (depth + 1) level placed) ↔
      ∃ name ∈ heads placed, path = [name] ∨
        ∃ rest, path = name :: rest ∧
          rest ∈ paths (forest depth (level + 1) (below name placed)) := by
  simp only [paths_eq_located, List.mem_map, Prod.exists, exists_and_right, exists_eq_right]
  constructor
  · rintro ⟨n, h⟩
    obtain ⟨name, hn, ⟨rfl, _⟩ | ⟨rest, rfl, inner⟩⟩ := mem_located_forest_succ.mp h
    · exact ⟨name, hn, Or.inl rfl⟩
    · exact ⟨name, hn, Or.inr ⟨rest, rfl, n, inner⟩⟩
  · rintro ⟨name, hn, rfl | ⟨rest, rfl, n, h⟩⟩
    · exact ⟨_, mem_located_forest_succ.mpr ⟨name, hn, Or.inl ⟨rfl, rfl⟩⟩⟩
    · exact ⟨n, mem_located_forest_succ.mpr ⟨name, hn, Or.inr ⟨rest, rfl, h⟩⟩⟩

theorem find?_forest_succ (depth level : Nat) (placed : List Placed) (name : Text) :
    (forest (depth + 1) level placed).find? (·.name = name) =
      if name ∈ heads placed then
        some (mkNode name level (ending name placed) (forest depth (level + 1) (below name placed)))
      else none := by
  rw [forest, List.find?_map]
  cases found : (heads placed).find? ((fun n : Node => decide (n.name = name)) ∘ fun name =>
      mkNode name level (ending name placed) (forest depth (level + 1) (below name placed))) with
  | none =>
    have absent : name ∉ heads placed := by
      intro h
      simpa using List.find?_eq_none.mp found name h
    rw [if_neg absent]
    rfl
  | some other =>
    have same : other = name := by simpa using List.find?_some found
    rw [← same, if_pos (List.mem_of_find?_eq_some found)]
    rfl

theorem containsNames_forest {depth level : Nat} {placed : List Placed} {names : List Text} :
    containsNames names (forest depth level placed) = true ↔
      names ∈ paths (forest depth level placed) := by
  induction names generalizing depth level placed with
  | nil =>
    simp only [containsNames, Bool.false_eq_true, false_iff]
    intro h
    exact ne_nil_of_mem_paths h rfl
  | cons name names ih =>
    cases depth with
    | zero => cases names <;> simp [forest, containsNames, paths]
    | succ depth =>
      rw [mem_paths_forest_succ]
      cases names with
      | nil =>
        have found : (forest (depth + 1) level placed).any (·.name = name) = true ↔
            name ∈ heads placed := by
          rw [← names_forest_succ depth level placed, List.any_eq_true, List.mem_map]
          simp
        rw [containsNames, found]
        constructor
        · intro h
          exact ⟨name, h, Or.inl rfl⟩
        · rintro ⟨other, h, e | ⟨rest, e, inner⟩⟩
          · cases e
            exact h
          · cases e
            exact h
      | cons next rest =>
        rw [containsNames, find?_forest_succ]
        by_cases h : name ∈ heads placed
        · rw [if_pos h]
          simp only [children_mkNode, ih]
          constructor
          · intro inner
            exact ⟨name, h, Or.inr ⟨_, rfl, inner⟩⟩
          · rintro ⟨other, _, e | ⟨last, e, inner⟩⟩
            · cases e
            · cases e
              exact inner
        · rw [if_neg h]
          simp only [Bool.false_eq_true, false_iff]
          rintro ⟨other, there, e | ⟨last, e, _⟩⟩
          · cases e
          · cases e
            exact h there

theorem definition?_mem {rows : List Row} {r : Row} (h : definition? rows = some r) : r ∈ rows := by
  rcases Option.or_eq_some_iff.mp h with h | ⟨_, h⟩
  · exact List.mem_of_find?_eq_some h
  · exact List.mem_of_mem_head? h

section build

variable (ms : List Mapping)

def rowsAt (path : List Text) : List Row :=
  (ms.zipIdx.filter (·.1.segments = path)).map fun x => ⟨x.2, x.1⟩

theorem placeFrom_eq (index : Nat) :
    placeFrom index ms = (ms.zipIdx index).map fun x => ⟨x.1.segments, ⟨x.2, x.1⟩⟩ := by
  induction ms generalizing index with
  | nil => rfl
  | cons m ms ih => rw [placeFrom, ih, List.zipIdx_cons, List.map_cons]

theorem place_eq : place ms = ms.zipIdx.map fun x => ⟨x.1.segments, ⟨x.2, x.1⟩⟩ :=
  placeFrom_eq ms 0

theorem length_le_depth {placed : List Placed} {x : Placed} (h : x ∈ placed) :
    x.path.length ≤ depth placed := by
  induction placed with
  | nil => simp at h
  | cons y ys ih =>
    rw [depth, List.foldr_cons, ← depth]
    rcases List.mem_cons.mp h with rfl | h
    · omega
    · have := ih h
      omega

theorem length_segments_le {ms : List Mapping} {m : Mapping} (hm : m ∈ ms) :
    m.segments.length ≤ depth (place ms) := by
  obtain ⟨i, hi⟩ := List.getElem?_of_mem hm
  have placed : (⟨m.segments, ⟨i, m⟩⟩ : Placed) ∈ place ms := by
    rw [place_eq, List.mem_map]
    exact ⟨(m, i), List.mem_zipIdx_iff_getElem?.mpr hi, rfl⟩
  exact length_le_depth placed

theorem ending_under_place (path : List Text) (name : Text) :
    ending name (under path (place ms)) = rowsAt ms (path ++ [name]) := by
  rw [ending_under, place_eq, List.filterMap_map, rowsAt]
  rw [← List.filterMap_eq_map, ← List.filterMap_eq_filter, List.filterMap_filterMap]
  refine List.filterMap_congr ?_
  intro x _
  by_cases h : x.1.segments = path ++ [name] <;> simp [Option.guard, h]

theorem heads_under_place (path : List Text) :
    heads (under path (place ms)) = distinct (ms.filterMap fun m => nextName path m.segments) := by
  rw [heads_under, place_eq, List.filterMap_map]
  refine congrArg distinct ?_
  conv_rhs => rw [← List.zipIdx_map_fst 0 ms, List.filterMap_map]
  rfl

theorem mem_heads_under_place {path : List Text} {name : Text} :
    name ∈ heads (under path (place ms)) ↔ ∃ m ∈ ms, path ++ [name] <+: m.segments := by
  simp only [heads_under_place, mem_distinct, List.mem_filterMap, nextName_eq_some_iff]

def childrenAt (path : List Text) : List Node :=
  forest (depth (place ms) - path.length) (path.length + 1) (under path (place ms))

theorem childrenAt_nil : childrenAt ms [] = build ms := rfl

theorem names_childrenAt (path : List Text) :
    (childrenAt ms path).map Node.name =
      distinct (ms.filterMap fun m => nextName path m.segments) := by
  rw [childrenAt, names_forest (length_under_le fun x hx => length_le_depth hx), heads_under_place]

theorem mem_located_build {ms : List Mapping} {path : List Text} {n : Node} :
    (path, n) ∈ located (build ms) ↔
      ∃ q s, path = q ++ [s] ∧ (∃ m ∈ ms, path <+: m.segments) ∧
        n = mkNode s path.length (rowsAt ms path) (childrenAt ms path) := by
  rw [build, mem_located_forest]
  unfold nodeAt
  refine exists_congr fun q => exists_congr fun s => and_congr_right fun e => ?_
  have length : path.length = q.length + 1 := by rw [e, List.length_append, List.length_singleton]
  rw [mem_heads_under_place, ending_under_place, childrenAt, ← e, length, Nat.add_comm 1 q.length]
  -- The depth of the tree is enough for every path that a mapping goes through.
  refine ⟨fun h => h.2, fun h => ⟨?_, h⟩⟩
  obtain ⟨⟨m, hm, through⟩, _⟩ := h
  have bound := length_segments_le hm
  have shorter := through.length_le
  omega

end build

end FieldMap.Target
