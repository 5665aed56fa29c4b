import FieldMap.Proofs.Pieces
import FieldMap.Proofs.TargetNodes

/-!
The paths of a target tree. They are the non-empty beginnings of the mappings' paths, each once;
siblings stand in the order in which the mappings first need them, and looking up a path text finds
exactly the paths that are there.
-/

namespace FieldMap.Target

def pathTexts (tree : List Node) : List Text :=
  (paths tree).map pathText

/-- The groups of siblings in a tree, each with the path of its parent; the roots have none. -/
def siblingGroups (tree : List Node) : List (List Text × List Node) :=
  ([], tree) :: (located tree).map fun x => (x.1, x.2.children)

/-- The number of the first mapping that goes through a path. -/
def firstThrough (ms : List Mapping) (path : List Text) : Nat :=
  ms.findIdx fun m => path <+: m.segments

def queryNames (query : Text) : List Text :=
  (List.splitOn '/' query).filter (· ≠ [])

theorem mem_paths_build {ms : List Mapping} {path : List Text} :
    path ∈ paths (build ms) ↔ path ≠ [] ∧ ∃ m ∈ ms, path <+: m.segments := by
  rw [paths_eq_located, List.mem_map]
  constructor
  · rintro ⟨x, hx, rfl⟩
    obtain ⟨q, s, e, through, _⟩ := mem_located_build.mp hx
    exact ⟨by simp [e], through⟩
  · rintro ⟨ne, through⟩
    obtain ⟨q, s, e⟩ := List.eq_nil_or_concat path |>.resolve_left ne
    rw [List.concat_eq_append] at e
    exact ⟨(path, _), mem_located_build.mpr ⟨q, s, e, through, rfl⟩, rfl⟩

theorem no_slash_of_mem_paths {ms : List Mapping} {path : List Text}
    (h : path ∈ paths (build ms)) : ∀ name ∈ path, '/' ∉ name := by
  obtain ⟨_, m, _, through⟩ := mem_paths_build.mp h
  intro name hn
  exact (isName_of_mem_segments (through.subset hn)).no_slash

theorem nodup_pathTexts (ms : List Mapping) : (pathTexts (build ms)).Nodup := by
  refine (nodup_paths_forest _ _ _).map_on ?_
  intro a ha b hb e
  exact pathText_injective (mem_paths_build.mp ha).1 (mem_paths_build.mp hb).1
    (no_slash_of_mem_paths ha) (no_slash_of_mem_paths hb) e

theorem mem_pathTexts_build {ms : List Mapping} {t : Text} :
    t ∈ pathTexts (build ms) ↔
      ∃ m ∈ ms, ∃ path, path ≠ [] ∧ path <+: m.segments ∧ t = pathText path := by
  rw [pathTexts, List.mem_map]
  constructor
  · rintro ⟨path, h, rfl⟩
    obtain ⟨ne, m, hm, through⟩ := mem_paths_build.mp h
    exact ⟨m, hm, path, ne, through, rfl⟩
  · rintro ⟨m, hm, path, ne, through, rfl⟩
    exact ⟨path, mem_paths_build.mpr ⟨ne, m, hm, through⟩, rfl⟩

theorem siblings_eq_childrenAt {ms : List Mapping} {parent : List Text} {siblings : List Node}
    (h : (parent, siblings) ∈ siblingGroups (build ms)) : siblings = childrenAt ms parent := by
  rcases List.mem_cons.mp h with e | h
  · cases e
    exact (childrenAt_nil ms).symm
  · obtain ⟨x, hx, e⟩ := List.mem_map.mp h
    cases e
    obtain ⟨q, s, _, _, node⟩ := mem_located_build.mp hx
    rw [node, children_mkNode]

theorem pairwise_childrenAt (ms : List Mapping) (parent : List Text) :
    ((childrenAt ms parent).map Node.name).Pairwise fun a b =>
      firstThrough ms (parent ++ [a]) < firstThrough ms (parent ++ [b]) := by
  rw [names_childrenAt]
  have order := pairwise_distinct_filterMap (fun m : Mapping => nextName parent m.segments) ms
  simpa only [nextName_eq_some_iff, firstThrough] using order

theorem level_of_mem_located {ms : List Mapping} {x : List Text × Node}
    (h : x ∈ located (build ms)) : x.2.level = x.1.length := by
  obtain ⟨q, s, _, _, node⟩ := mem_located_build.mp h
  rw [node, level_mkNode]

theorem queryNames_mem_paths {ms : List Mapping} {query : Text} :
    queryNames query ∈ paths (build ms) ↔
      queryNames query ≠ [] ∧ pathText (queryNames query) ∈ pathTexts (build ms) := by
  -- A query holds no slash in its pieces, so it is a path of the tree if its text is one.
  have free : ∀ name ∈ queryNames query, '/' ∉ name := fun name h =>
    Text.not_mem_of_mem_splitOn (List.mem_filter.mp h).1
  constructor
  · intro h
    exact ⟨(mem_paths_build.mp h).1, List.mem_map_of_mem h⟩
  · rintro ⟨ne, h⟩
    obtain ⟨path, hp, e⟩ := List.mem_map.mp h
    rwa [pathText_injective (mem_paths_build.mp hp).1 ne (no_slash_of_mem_paths hp) free e] at hp

/-- The tree is the prefix closure of the target paths, with siblings in order of first use. -/
theorem build_is_prefix_closure (ms : List Mapping) :
    (∀ t, t ∈ pathTexts (build ms) ↔
      ∃ m ∈ ms, ∃ path, path ≠ [] ∧ path <+: m.segments ∧ t = pathText path) ∧
    (pathTexts (build ms)).Nodup ∧
    (∀ group ∈ siblingGroups (build ms),
      (group.2.map Node.name).Nodup ∧
      (group.2.map Node.name).Pairwise fun a b =>
        firstThrough ms (group.1 ++ [a]) < firstThrough ms (group.1 ++ [b])) ∧
    (∀ x ∈ located (build ms), x.2.level = x.1.length) ∧
    (∀ query, containsPath query (build ms) = true ↔
      queryNames query ≠ [] ∧ pathText (queryNames query) ∈ pathTexts (build ms)) := by
  refine ⟨fun t => mem_pathTexts_build, nodup_pathTexts ms, ?_, fun x => level_of_mem_located, ?_⟩
  · intro group h
    have order := pairwise_childrenAt ms group.1
    rw [← siblings_eq_childrenAt h] at order
    refine ⟨order.imp ?_, order⟩
    rintro a b h rfl
    exact Nat.lt_irrefl _ h
  · intro query
    rw [← queryNames_mem_paths]
    exact containsNames_forest

def orderRows : List Mapping :=
  [{ targetName := "id", targetPath := some "Order/id" },
    { targetName := "Customer", targetPath := some "/Order//Customer/" },
    { targetName := "Order" }]

theorem orderRows_prefix_closure :
    "Order".toList ∈ pathTexts (build orderRows) ∧ (pathTexts (build orderRows)).length = 3 ∧
    (∃ group ∈ siblingGroups (build orderRows),
      group.2.map Node.name = ["id".toList, "Customer".toList] ∧
      firstThrough orderRows (group.1 ++ ["id".toList]) <
        firstThrough orderRows (group.1 ++ ["Customer".toList])) ∧
    containsPath "//Order/id/" (build orderRows) = true := by
  obtain ⟨paths, _, siblings, _, lookup⟩ := build_is_prefix_closure orderRows
  refine ⟨(paths _).2 ?_, by decide +kernel, ?_, (lookup _).2 (by decide +kernel)⟩
  · exact ⟨{ targetName := "Order" }, by decide +kernel, ["Order"], by decide +kernel⟩
  · obtain ⟨group, hgroup, names⟩ : ∃ group ∈ siblingGroups (build orderRows),
        group.2.map Node.name = ["id".toList, "Customer".toList] := by
      decide +kernel
    have order := (siblings group hgroup).2
    rw [names, List.pairwise_pair] at order
    exact ⟨group, hgroup, names, order⟩

end FieldMap.Target
