import FieldMap.Proofs.SheetRows
import FieldMap.Proofs.TargetPaths

/-!
The gaps of a list of mappings as lists of names. They are the beginnings of target paths that no
mapping describes, each once and in the order in which they are first needed. Joined to a text and
taken apart again each is the path of its placeholder, so a completed list has no gaps left.
-/

namespace FieldMap.Target

/-- The containers that no mapping describes, as lists of names. -/
def gapPaths (ms : List Mapping) : List (List Text) :=
  distinct ((ms.flatMap fun m => properInits m.segments).filter fun path =>
    ms.all (·.segments ≠ path))

def gapMapping (path : List Text) : Mapping :=
  Mapping.placeholder (pathText path)

/-- The first path is needed by an earlier mapping than the second, or as a shorter beginning of the
path of the same one. -/
def NeededBefore (ms : List Mapping) (a b : List Text) : Prop :=
  firstThrough ms a < firstThrough ms b ∨
    firstThrough ms a = firstThrough ms b ∧ a.length < b.length

theorem pairwise_properInits {α : Type} (names : List α) :
    (properInits names).Pairwise (·.length < ·.length) := by
  fun_induction properInits names with
  | case1 a b rest ih =>
    refine List.pairwise_cons.mpr ⟨?_, List.pairwise_map.mpr (ih.imp (by simp))⟩
    intro longer h
    obtain ⟨init, hi, rfl⟩ := List.mem_map.mp h
    have some_name := List.length_pos_iff.mpr (mem_properInits.mp hi).1
    simpa using some_name
  | case2 => exact List.Pairwise.nil

section distinct

variable {α β : Type} [DecidableEq α] [DecidableEq β]

theorem distinct_eq_self {as : List α} (h : as.Nodup) : distinct as = as := by
  induction as with
  | nil => rfl
  | cons a as ih =>
    obtain ⟨fresh, rest⟩ := List.nodup_cons.mp h
    rw [distinct, ih rest, List.filter_eq_self.mpr]
    intro b hb
    simpa using ne_of_mem_of_not_mem hb fresh

theorem distinct_append (as bs : List α) :
    distinct (as ++ bs) = distinct as ++ (distinct bs).filter (· ∉ as) := by
  induction as with
  | nil => simp [distinct]
  | cons a as ih =>
    rw [List.cons_append, distinct, ih, distinct, List.filter_append, List.filter_filter,
      List.cons_append]
    simp

theorem distinct_map {f : α → β} {as : List α} (h : ∀ a ∈ as, ∀ b ∈ as, f a = f b → a = b) :
    distinct (as.map f) = (distinct as).map f := by
  induction as with
  | nil => rfl
  | cons a as ih =>
    have rest := ih fun b hb c hc => h b (List.mem_cons_of_mem a hb) c (List.mem_cons_of_mem a hc)
    rw [List.map_cons, distinct, rest, distinct, List.map_cons, List.filter_map]
    refine congrArg (f a :: ·.map f) (List.filter_congr ?_)
    intro b hb
    have member : b ∈ a :: as := List.mem_cons_of_mem a (mem_distinct.mp hb)
    have same : f b = f a ↔ b = a :=
      ⟨h b member a List.mem_cons_self, congrArg f⟩
    simp [same]

end distinct

section gaps

variable {ms : List Mapping} {path : List Text}

theorem mem_gapPaths :
    path ∈ gapPaths ms ↔ path ≠ [] ∧ (∃ m ∈ ms, path <+: m.segments ∧ path ≠ m.segments) ∧
      ∀ m ∈ ms, m.segments ≠ path := by
  simp only [gapPaths, mem_distinct, List.mem_filter, List.mem_flatMap, mem_properInits,
    List.all_eq_true, decide_eq_true_eq]
  constructor
  · rintro ⟨⟨m, hm, ne, needed⟩, free⟩
    exact ⟨ne, ⟨m, hm, needed⟩, free⟩
  · rintro ⟨ne, ⟨m, hm, needed⟩, free⟩
    exact ⟨⟨m, hm, ne, needed⟩, free⟩

theorem isName_of_mem_gapPaths (h : path ∈ gapPaths ms) : ∀ name ∈ path, IsName name := by
  obtain ⟨-, ⟨m, -, inside, -⟩, -⟩ := mem_gapPaths.mp h
  exact fun name hname => isName_of_mem_segments (inside.subset hname)

theorem segments_gapMapping (h : path ∈ gapPaths ms) : (gapMapping path).segments = path :=
  segments_placeholder (isName_of_mem_gapPaths h) (mem_gapPaths.mp h).1

theorem pathText_segments_eq_iff {m f : Mapping} (ne : path ≠ []) (inside : path <+: f.segments) :
    pathText m.segments = pathText path ↔ m.segments = path := by
  have names : ∀ t ∈ path, IsName t := fun t ht => isName_of_mem_segments (inside.subset ht)
  refine ⟨fun e => ?_, congrArg pathText⟩
  by_cases empty : m.segments = []
  · have whole : pathText path ≠ [] := Text.intercalate_ne_nil (fun t ht => (names t ht).ne_nil) ne
    rw [empty] at e
    exact absurd e.symm whole
  · exact pathText_injective empty ne (fun t ht => (isName_of_mem_segments ht).no_slash)
      (fun t ht => (names t ht).no_slash) e

theorem gaps_eq (ms : List Mapping) : gaps ms = (gapPaths ms).map pathText := by
  have begins : ∀ {path}, path ∈ ms.flatMap (fun m => properInits m.segments) →
      path ≠ [] ∧ ∃ f ∈ ms, path <+: f.segments := by
    intro path h
    obtain ⟨f, hf, hp⟩ := List.mem_flatMap.mp h
    obtain ⟨ne, inside, -⟩ := mem_properInits.mp hp
    exact ⟨ne, f, hf, inside⟩
  dsimp only [gaps, gapPaths]
  rw [← distinct_map, ← List.map_flatMap, List.filter_map]
  · refine congrArg (fun l => distinct (l.map pathText)) (List.filter_congr ?_)
    intro path h
    obtain ⟨ne, f, -, inside⟩ := begins h
    rw [Bool.eq_iff_iff]
    simp [pathText_segments_eq_iff ne inside]
  · intro a ha b hb e
    obtain ⟨na, f, -, fa⟩ := begins (List.mem_of_mem_filter ha)
    obtain ⟨nb, g, -, gb⟩ := begins (List.mem_of_mem_filter hb)
    exact pathText_injective na nb
      (fun t ht => (isName_of_mem_segments (fa.subset ht)).no_slash)
      (fun t ht => (isName_of_mem_segments (gb.subset ht)).no_slash) e

theorem complete_eq (ms : List Mapping) : complete ms = ms ++ (gapPaths ms).map gapMapping := by
  rw [complete, gaps_eq, List.map_map]
  rfl

theorem nodup_gapPaths (ms : List Mapping) : (gapPaths ms).Nodup :=
  nodup_distinct _

theorem nodup_gapMappings (ms : List Mapping) : ((gapPaths ms).map gapMapping).Nodup := by
  refine (nodup_gapPaths ms).map_on ?_
  intro a ha b hb e
  rw [← segments_gapMapping ha, e, segments_gapMapping hb]

theorem gapPaths_complete (ms : List Mapping) : gapPaths (complete ms) = [] := by
  rw [List.eq_nil_iff_forall_not_mem]
  intro path h
  obtain ⟨ne, ⟨m, hm, inside, different⟩, free⟩ := mem_gapPaths.mp h
  rw [complete_eq, List.forall_mem_append] at free
  have needed : ∃ f ∈ ms, path <+: f.segments ∧ path ≠ f.segments := by
    rw [complete_eq, List.mem_append, List.mem_map] at hm
    rcases hm with given | ⟨gap, hgap, rfl⟩
    · exact ⟨m, given, inside, different⟩
    · obtain ⟨-, ⟨f, hf, through, -⟩, -⟩ := mem_gapPaths.mp hgap
      rw [segments_gapMapping hgap] at inside
      exact ⟨f, hf, inside.trans through, (free.1 f hf).symm⟩
  have gap : path ∈ gapPaths ms := mem_gapPaths.mpr ⟨ne, needed, free.1⟩
  exact free.2 _ (List.mem_map_of_mem gap) (segments_gapMapping gap)

theorem complete_complete (ms : List Mapping) : complete (complete ms) = complete ms := by
  conv_lhs => rw [complete_eq, gapPaths_complete]
  exact List.append_nil _

end gaps

section order

variable {m : Mapping} {ms : List Mapping} {a b path : List Text}

theorem firstThrough_cons_of_prefix (h : path <+: m.segments) : firstThrough (m :: ms) path = 0 := by
  simp [firstThrough, List.findIdx_cons, h]

theorem firstThrough_cons_of_not_prefix (h : ¬ path <+: m.segments) :
    firstThrough (m :: ms) path = firstThrough ms path + 1 := by
  simp [firstThrough, List.findIdx_cons, h]

theorem pairwise_needed {keep : List Text → Bool} (ms : List Mapping)
    (apart : ∀ path, keep path = true → ∀ m ∈ ms, m.segments ≠ path) :
    (distinct ((ms.flatMap fun m => properInits m.segments).filter keep)).Pairwise
      (NeededBefore ms) := by
  induction ms with
  | nil => exact List.Pairwise.nil
  | cons m ms ih =>
    have early : ∀ a ∈ (properInits m.segments).filter keep, firstThrough (m :: ms) a = 0 :=
      fun a ha => firstThrough_cons_of_prefix (mem_properInits.mp (List.mem_of_mem_filter ha)).2.1
    have late : ∀ b ∈ distinct ((ms.flatMap fun m => properInits m.segments).filter keep),
        b ∉ (properInits m.segments).filter keep →
          firstThrough (m :: ms) b = firstThrough ms b + 1 := by
      intro b needed new
      obtain ⟨init, kept⟩ := List.mem_filter.mp (mem_distinct.mp needed)
      obtain ⟨f, -, hf⟩ := List.mem_flatMap.mp init
      refine firstThrough_cons_of_not_prefix fun inside => new (List.mem_filter.mpr ⟨?_, kept⟩)
      have different := (apart b kept m List.mem_cons_self).symm
      exact mem_properInits.mpr ⟨(mem_properInits.mp hf).1, inside, different⟩
    have shortest : ((properInits m.segments).filter keep).Pairwise (·.length < ·.length) :=
      (pairwise_properInits _).filter _
    have unique : ((properInits m.segments).filter keep).Nodup := by
      refine shortest.imp ?_
      rintro a b shorter rfl
      exact Nat.lt_irrefl _ shorter
    rw [List.flatMap_cons, List.filter_append, distinct_append, distinct_eq_self unique,
      List.pairwise_append]
    refine ⟨shortest.imp_of_mem ?_, ((ih ?_).filter _).imp_of_mem ?_, ?_⟩
    · intro a b ha hb shorter
      exact Or.inr ⟨(early a ha).trans (early b hb).symm, shorter⟩
    · exact fun path kept m hm => apart path kept m (List.mem_cons_of_mem _ hm)
    · intro a b ha hb before
      simp only [List.mem_filter, decide_eq_true_eq] at ha hb
      unfold NeededBefore at before ⊢
      rw [late a ha.1 (by simpa using ha.2), late b hb.1 (by simpa using hb.2)]
      omega
    · intro a ha b hb
      simp only [List.mem_filter, decide_eq_true_eq] at hb
      refine Or.inl ?_
      rw [early a ha, late b hb.1 (by simpa using hb.2)]
      exact Nat.succ_pos _

theorem pairwise_gapPaths (ms : List Mapping) : (gapPaths ms).Pairwise (NeededBefore ms) :=
  pairwise_needed ms fun path h => by simpa using h

example : gapPaths [{ targetName := "id", targetPath := some "Order/Customer/Address/id" },
    { targetName := "Customer", targetPath := some "Order/Customer" }] =
      [["Order".toList], ["Order".toList, "Customer".toList, "Address".toList]] := by
  decide +kernel

end order

end FieldMap.Target
