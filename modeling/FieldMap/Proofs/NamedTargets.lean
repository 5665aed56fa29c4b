import FieldMap.Prepare
import FieldMap.Proofs.Pieces
import FieldMap.Proofs.TargetRows

/-!
Mappings that say where their value goes. A usable mapping has a target name that is not blank, which
is not enough for a place in the tree: the name may be made of slashes, and a target path of slashes
with white space between them hides the name. A mapping has names on its path, and then a node of
the tree that holds it, exactly if the text that counts has a character of a name.
-/

namespace FieldMap.Text

theorem mem_dropWhile {p : Char → Bool} {t : Text} {c : Char} (h : p c = false) :
    c ∈ t.dropWhile p ↔ c ∈ t := by
  refine ⟨fun member => (List.dropWhile_suffix p).subset member, fun member => ?_⟩
  rw [← List.takeWhile_append_dropWhile (p := p) (l := t), List.mem_append] at member
  refine member.resolve_left fun dropped => ?_
  rw [List.mem_takeWhile_imp dropped] at h
  cases h

theorem mem_dropEndWhile {p : Char → Bool} {t : Text} {c : Char} (h : p c = false) :
    c ∈ dropEndWhile p t ↔ c ∈ t := by
  rw [dropEndWhile, List.mem_reverse, mem_dropWhile h, List.mem_reverse]

theorem mem_trim {t : Text} {c : Char} (h : isBlank c = false) : c ∈ trim t ↔ c ∈ t := by
  rw [trim, mem_dropEndWhile h, mem_dropWhile h]

theorem exists_mem_splitOn {sep : Char} {t : Text} {p : Char → Prop} :
    (∃ piece ∈ t.splitOn sep, ∃ c ∈ piece, p c) ↔ ∃ c ∈ t, c ≠ sep ∧ p c := by
  constructor
  · rintro ⟨piece, hp, c, hc, holds⟩
    refine ⟨c, (isInfix_of_mem_splitOn hp).subset hc, ?_, holds⟩
    rintro rfl
    exact not_mem_of_mem_splitOn hp hc
  · rintro ⟨c, hc, other, holds⟩
    have whole : [sep].intercalate (t.splitOn sep) = t := List.intercalate_splitOn sep
    rw [← whole] at hc
    rcases mem_of_mem_intercalate hc with separator | ⟨piece, hp, inside⟩
    · exact absurd (List.mem_singleton.mp separator) other
    · exact ⟨piece, hp, c, inside, holds⟩

end FieldMap.Text

namespace FieldMap.Mapping

def HoldsName (t : Text) : Prop :=
  ∃ c ∈ t, c ≠ '/' ∧ Text.isBlank c = false

instance (t : Text) : Decidable (HoldsName t) :=
  decidable_of_iff (t.any (fun c => decide (c ≠ '/' ∧ Text.isBlank c = false)) = true)
    (by simp [HoldsName])

/-- The target path has a name, or it says nothing and the target name has one. A path of slashes
says nothing; one with white space between slashes does. -/
def NamesTarget (m : Mapping) : Prop :=
  (∃ path ∈ m.targetPath, HoldsName path) ∨
    (∀ path ∈ m.targetPath, ∀ c ∈ Text.trim path, c = '/') ∧ HoldsName m.targetName

theorem holdsName_congr {t u : Text}
    (h : ∀ c, c ≠ '/' → Text.isBlank c = false → (c ∈ t ↔ c ∈ u)) : HoldsName t ↔ HoldsName u := by
  refine exists_congr fun c => and_congr_left ?_
  rintro ⟨other, visible⟩
  exact h c other visible

theorem holdsName_trim {t : Text} : HoldsName (Text.trim t) ↔ HoldsName t :=
  holdsName_congr fun _ _ visible => Text.mem_trim visible

theorem mem_stripSlashes {t : Text} {c : Char} (h : c ≠ '/') : c ∈ stripSlashes t ↔ c ∈ t := by
  have keep : decide (c = '/') = false := decide_eq_false h
  rw [stripSlashes, Text.mem_dropEndWhile keep, Text.mem_dropWhile keep]

theorem holdsName_stripSlashes {t : Text} : HoldsName (stripSlashes t) ↔ HoldsName t :=
  holdsName_congr fun _ other _ => mem_stripSlashes other

theorem stripSlashes_eq_nil_iff {t : Text} : stripSlashes t = [] ↔ ∀ c ∈ t, c = '/' := by
  constructor
  · intro empty c hc
    by_contra other
    have kept := (mem_stripSlashes other).mpr hc
    rw [empty] at kept
    cases kept
  · intro all
    have front : t.dropWhile (· = '/') = [] := by
      rw [List.dropWhile_eq_nil_iff]
      exact fun c hc => decide_eq_true (all c hc)
    rw [stripSlashes, front]
    rfl

theorem holdsName_effectivePath {m : Mapping} : HoldsName m.effectivePath ↔ m.NamesTarget := by
  unfold effectivePath NamesTarget
  cases m.targetPath with
  | none => simp [holdsName_trim]
  | some path =>
    simp only [Option.mem_some_iff, exists_eq_left', forall_eq']
    by_cases empty : stripSlashes (Text.trim path) = []
    · have slashes := stripSlashes_eq_nil_iff.mp empty
      have nameless : ¬ HoldsName path := by
        rw [← holdsName_trim]
        rintro ⟨c, hc, other, -⟩
        exact other (slashes c hc)
      rw [if_pos empty, holdsName_trim, or_iff_right nameless, and_iff_right slashes]
    · have more := mt stripSlashes_eq_nil_iff.mpr empty
      rw [if_neg empty, holdsName_stripSlashes, holdsName_trim, or_iff_left fun both => more both.1]

theorem segments_ne_nil_iff {m : Mapping} : m.segments ≠ [] ↔ m.NamesTarget := by
  have piece (t : Text) : Text.trim t ≠ [] ↔ ∃ c ∈ t, Text.isBlank c = false := by
    rw [Ne, Text.trim_eq_nil_iff, Text.allBlank, List.all_eq_true]
    simp
  rw [← holdsName_effectivePath, HoldsName, ← Text.exists_mem_splitOn, segments, Ne,
    List.filter_eq_nil_iff, List.forall_mem_map]
  simp only [decide_eq_true_eq, piece]
  push Not
  rfl

end FieldMap.Mapping

namespace FieldMap.Target

def Node.rows : Node → List Row
  | .component _ _ rows _ => rows
  | .leaf _ _ rows => rows

/-- The tree has a node at the path of the mapping, and the node holds it under its number. -/
def HasPlace (tree : List Node) (i : Nat) (m : Mapping) : Prop :=
  ∃ n, (m.segments, n) ∈ located tree ∧ ⟨i, m⟩ ∈ n.rows

theorem rows_eq_rowsAt {ms : List Mapping} {path : List Text} {n : Node}
    (h : (path, n) ∈ located (build ms)) : n.rows = rowsAt ms path := by
  rcases node_eq h with ⟨name, level, e⟩ | ⟨name, level, children, e⟩ <;>
    rw [e, Node.rows]

theorem hasPlace_build_iff {ms : List Mapping} {i : Nat} {m : Mapping} (hi : ms[i]? = some m) :
    HasPlace (build ms) i m ↔ m.segments ≠ [] := by
  constructor
  · rintro ⟨n, hn, -⟩ empty
    obtain ⟨q, s, e, -⟩ := mem_located_build.mp hn
    rw [empty] at e
    exact List.append_ne_nil_of_right_ne_nil q (List.cons_ne_nil s []) e.symm
  · intro named
    obtain ⟨n, hn⟩ := exists_node hi named
    exact ⟨n, hn, rows_eq_rowsAt hn ▸ mem_rowsAt.mpr ⟨hi, rfl⟩⟩

/-- A mapping has names on its path, and as a prepared row a place in the tree of the stylesheet, exactly
if its target has a name. -/
theorem hasPlace_iff_namesTarget (m : Mapping) :
    (m.segments ≠ [] ↔ m.NamesTarget) ∧
    ∀ (fields : List Mapping) (i : Nat), (Prepared.ofFields fields).mappings[i]? = some m →
      (HasPlace (build (complete (Prepared.ofFields fields).mappings)) i m ↔ m.NamesTarget) := by
  refine ⟨Mapping.segments_ne_nil_iff, fun fields i hi => ?_⟩
  have completed : (complete (Prepared.ofFields fields).mappings)[i]? = some m := by
    rw [complete, List.getElem?_append_left (List.getElem?_eq_some_iff.mp hi).1, hi]
  rw [hasPlace_build_iff completed, Mapping.segments_ne_nil_iff]

def totalRow : Mapping :=
  { sourcePath := "//Total", targetName := " / Total", targetPath := some " // " }

theorem totalRow_hasPlace :
    (Prepared.ofFields [totalRow]).mappings[0]? = some totalRow ∧ totalRow.NamesTarget ∧
      HasPlace (build (complete (Prepared.ofFields [totalRow]).mappings)) 0 totalRow := by
  have prepared : (Prepared.ofFields [totalRow]).mappings[0]? = some totalRow := by decide +kernel
  have named : totalRow.NamesTarget := by
    refine Or.inr ⟨?_, by decide +kernel⟩
    rintro path ⟨⟩
    exact Mapping.stripSlashes_eq_nil_iff.mp (by decide +kernel)
  exact ⟨prepared, named, ((hasPlace_iff_namesTarget totalRow).2 [totalRow] 0 prepared).mpr named⟩

def slashRow : Mapping :=
  { sourcePath := "//Total", targetName := "/" }

/-- A usable mapping whose path, white space between slashes, stands in for its name. -/
def hiddenRow : Mapping :=
  { sourcePath := "//Total", targetName := "Total", targetPath := some "/ /" }

theorem usable_without_place :
    slashRow.fault? = none ∧ slashRow.segments = [] ∧
      hiddenRow.fault? = none ∧ hiddenRow.segments = [] ∧
      (Prepared.ofFields [slashRow, hiddenRow]).mappings = [slashRow, hiddenRow] ∧
      paths (build (complete [slashRow, hiddenRow])) = [] := by
  decide +kernel

end FieldMap.Target
