import Mathlib.Data.List.Nodup
import Mathlib.Data.List.Pairwise
import Mathlib.Data.List.Perm.Basic
import FieldMap.Mapping.Encoding
import FieldMap.Proofs.JsonOrder

/-!
Records that are read back from what is written for them. If every field is read back and the fields
are independent of each other, then the record is read back, in whatever order its members stand.
-/

namespace FieldMap.Json

/-- The value is read as `a`, also with its members in another order. -/
structure ReadsAs {α : Type} (decode : Decoder α) (v : Json) (a : α) : Prop where
  distinct : v.Distinct
  read : ∀ w, Rearranged v w → decode w = .ok a

section Values

variable {α : Type} {decode : Decoder α}

theorem ReadsAs.same {v : Json} {a : α} (h : ReadsAs decode v a) : decode v = .ok a :=
  h.read v (.refl v)

theorem ReadsAs.sorted {v : Json} {a : α} (h : ReadsAs decode v a) : decode v.sorted = .ok a :=
  h.read v.sorted (rearranged_sorted v h.distinct)

theorem readsAs_str {t : Text} {a : α} (h : decode (.str t) = .ok a) : ReadsAs decode (.str t) a := by
  refine ⟨trivial, ?_⟩
  rintro _ rfl
  exact h

theorem readsAs_text (t : Text) : ReadsAs text (.str t) t :=
  readsAs_str rfl

theorem readsAs_boolean (b : Bool) : ReadsAs boolean (.bool b) b := by
  refine ⟨trivial, ?_⟩
  rintro _ rfl
  rfl

theorem readsAs_count {n : Nat} (h : n < 0x100000000) : ReadsAs count (.int n) n := by
  refine ⟨trivial, ?_⟩
  rintro _ rfl
  rw [count, if_pos (by omega)]
  rfl

def Rejects (decode : Decoder α) : Prop :=
  ∀ a, decode .null ≠ .ok a

theorem rejects_text : Rejects text := by
  intro a read
  cases read

theorem rejects_record {σ : Type} {name : Text} {table : List (Member σ)} {start : σ}
    {origin : Origin} : Rejects (record name table start origin) := by
  intro a read
  cases read

theorem readsAs_optional (rejects : Rejects decode) {v : Json} {a : α} (h : ReadsAs decode v a) :
    ReadsAs (optional decode) v (some a) := by
  refine ⟨h.distinct, fun w hw => ?_⟩
  have read := h.read w hw
  unfold optional
  split
  · exact absurd read (rejects a)
  · rw [read]
    rfl

theorem readsAs_list {encode : α → Json} {as : List α} (h : ∀ a ∈ as, ReadsAs decode (encode a) a) :
    ReadsAs (list decode) (.arr (as.map encode)) as := by
  refine ⟨?_, ?_⟩
  · refine allDistinct_iff.mpr ?_
    intro v hv
    obtain ⟨a, ha, rfl⟩ := List.mem_map.mp hv
    exact (h a ha).distinct
  · rintro _ ⟨ws, rfl, items⟩
    rw [list]
    induction as generalizing ws with
    | nil =>
      cases items
      rfl
    | cons a as ih =>
      obtain ⟨w, others, rfl, first, later⟩ := items
      have ⟨head, tail⟩ := List.forall_mem_cons.mp h
      rw [allItems, head.read w first, ih tail others later]
      rfl

end Values

namespace Member

/-- The record `s` with the field as it is in `x`. -/
def copy {σ : Type} (f : Member σ) (x s : σ) : σ :=
  f.set (f.get x) s

/-- The field of `x` is read back, or it is left out and is what it is at the start. -/
structure Faithful {σ : Type} (origin : Origin) (start x : σ) (f : Member σ) : Prop where
  read_back : ∀ v ∈ f.written x, ReadsAs (f.decode origin) v (f.get x)
  left_out : f.written x = none → f.required = false ∧ f.copy x start = start

variable {σ α : Type} {origin : Origin} {start x : σ} {key : Text}

@[simp] theorem copy_must (f : Member σ) (x s : σ) : f.must.copy x s = f.copy x s :=
  rfl

theorem Faithful.read {f : Member σ} (h : f.Faithful origin start x) {v w : Json}
    (hv : f.written x = some v) (hw : Rearranged v w) (s : σ) :
    f.read origin w s = .ok (f.copy x s) := by
  rw [Member.read, (h.read_back v hv).read w hw]
  rfl

theorem Faithful.must {f : Member σ} (h : f.Faithful origin start x) (some : (f.written x).isSome) :
    f.must.Faithful origin start x :=
  ⟨h.read_back, fun none => absurd none (Option.isSome_iff_ne_none.mp some)⟩

section Kinds

variable {decode : Origin → Decoder α} {encode : α → Json}

@[simp] theorem copy_value (get : σ → α) (set : α → σ → σ) (x s : σ) :
    (value key decode encode get set).copy x s = set (get x) s :=
  rfl

@[simp] theorem copy_optional (get : σ → Option α) (set : Option α → σ → σ) (x s : σ) :
    (optional key decode encode get set).copy x s = set (get x) s :=
  rfl

@[simp] theorem copy_unlessAt [DecidableEq α] (default : α) (get : σ → α) (set : α → σ → σ) (x s : σ) :
    (unlessAt default key decode encode get set).copy x s = set (get x) s :=
  rfl

theorem faithful_value {get : σ → α} {set : α → σ → σ}
    (h : ReadsAs (decode origin) (encode (get x)) (get x)) :
    (value key decode encode get set).Faithful origin start x := by
  refine ⟨?_, nofun⟩
  rintro _ ⟨⟩
  exact h

theorem faithful_optional {get : σ → Option α} {set : Option α → σ → σ}
    (rejects : Rejects (decode origin)) (h : ∀ a ∈ get x, ReadsAs (decode origin) (encode a) a)
    (unset : set none start = start) :
    (optional key decode encode get set).Faithful origin start x := by
  refine ⟨fun v hv => ?_, fun none => ⟨rfl, ?_⟩⟩
  · obtain ⟨a, ha, rfl⟩ := Option.map_eq_some_iff.mp hv
    have back := readsAs_optional rejects (h a ha)
    rw [← ha] at back
    exact back
  · have missing : get x = Option.none := Option.map_eq_none_iff.mp none
    rw [copy_optional, missing]
    exact unset

theorem faithful_unlessAt [DecidableEq α] {default : α} {get : σ → α} {set : α → σ → σ}
    (h : ReadsAs (decode origin) (encode (get x)) (get x)) (unset : set default start = start) :
    (unlessAt default key decode encode get set).Faithful origin start x := by
  by_cases at_default : get x = default
  · have none : (unlessAt default key decode encode get set).written x = none := if_pos at_default
    refine ⟨fun v hv => ?_, fun _ => ⟨rfl, ?_⟩⟩
    · rw [none] at hv
      cases hv
    · rw [copy_unlessAt, at_default]
      exact unset
  · have some : (unlessAt default key decode encode get set).written x = some (encode (get x)) :=
      if_neg at_default
    refine ⟨fun v hv => ?_, fun none => ?_⟩
    · rw [some] at hv
      cases hv
      exact h
    · rw [some] at none
      cases none

end Kinds

@[simp] theorem copy_text (get : σ → Text) (set : Text → σ → σ) (x s : σ) :
    (text key get set).copy x s = set (get x) s :=
  rfl

@[simp] theorem copy_optionalText (get : σ → Option Text) (set : Option Text → σ → σ) (x s : σ) :
    (optionalText key get set).copy x s = set (get x) s :=
  rfl

@[simp] theorem copy_flag (default : Bool) (get : σ → Bool) (set : Bool → σ → σ) (x s : σ) :
    (flag default key get set).copy x s = set (get x) s :=
  rfl

theorem faithful_text {get : σ → Text} {set : Text → σ → σ} :
    (text key get set).Faithful origin start x :=
  faithful_value (readsAs_text (get x))

theorem faithful_optionalText {get : σ → Option Text} {set : Option Text → σ → σ}
    (unset : set none start = start) : (optionalText key get set).Faithful origin start x :=
  faithful_optional rejects_text (fun t _ => readsAs_text t) unset

theorem faithful_flag {default : Bool} {get : σ → Bool} {set : Bool → σ → σ}
    (unset : set default start = start) : (flag default key get set).Faithful origin start x :=
  faithful_unlessAt (readsAs_boolean (get x)) unset

end Member

section Record

variable {σ : Type} {origin : Origin} {table : List (Member σ)} {start x : σ}

def shown (table : List (Member σ)) (x : σ) : List (Member σ) :=
  table.filter fun f => (f.written x).isSome

theorem keys_members (table : List (Member σ)) (x : σ) :
    (members table x).map (·.1) = (shown table x).map (·.key) := by
  induction table with
  | nil => rfl
  | cons f table ih =>
    rw [members, List.filterMap_cons, ← members, shown, List.filter_cons, ← shown]
    cases f.written x with
    | none => exact ih
    | some v => exact congrArg (f.key :: ·) ih

theorem distinct_members (faithful : ∀ f ∈ table, f.Faithful origin start x)
    (keys : (table.map (·.key)).Nodup) : (Json.obj (members table x)).Distinct := by
  refine ⟨?_, membersDistinct_iff.mpr ?_⟩
  · rw [keys_members]
    exact keys.sublist (List.filter_sublist.map _)
  · intro m hm
    obtain ⟨f, hf, written⟩ := List.mem_filterMap.mp hm
    obtain ⟨v, value, rfl⟩ := Option.map_eq_some_iff.mp written
    exact ((faithful f hf).read_back v value).distinct

structure IsMember (x : σ) (m : Text × Json) (f : Member σ) : Prop where
  key : m.1 = f.key
  value : ∃ v, f.written x = some v ∧ Rearranged v m.2

theorem forall₂_shown {own : List (Text × Json)} (h : MembersRearranged (members table x) own) :
    List.Forall₂ (IsMember x) own (shown table x) := by
  induction table generalizing own with
  | nil =>
    cases h
    exact .nil
  | cons f table ih =>
    rw [members, List.filterMap_cons, ← members] at h
    rw [shown, List.filter_cons, ← shown]
    cases written : f.written x with
    | none =>
      rw [written] at h
      exact ih h
    | some v =>
      rw [written] at h
      obtain ⟨w, others, rfl, first, later⟩ := h
      exact .cons ⟨rfl, v, written, first⟩ (ih later)

theorem exists_fields {own ns : List (Text × Json)} (h : MembersRearranged (members table x) own)
    (perm : own.Perm ns) : ∃ fs, List.Forall₂ (IsMember x) ns fs ∧ fs.Perm (shown table x) :=
  List.perm_comp_forall₂ perm.symm (forall₂_shown h)

theorem find?_key (keys : (table.map (·.key)).Nodup) {f : Member σ} (h : f ∈ table) :
    table.find? (·.key = f.key) = some f := by
  induction table with
  | nil => cases h
  | cons g table ih =>
    rw [List.map_cons, List.nodup_cons] at keys
    rcases List.mem_cons.mp h with rfl | later
    · exact List.find?_cons_of_pos (decide_eq_true rfl)
    · have other : g.key ≠ f.key := by
        intro same
        exact keys.1 (List.mem_map.mpr ⟨f, later, same.symm⟩)
      rw [List.find?_cons_of_neg (by simpa using other)]
      exact ih keys.2 later

theorem readMembers_fields (faithful : ∀ f ∈ table, f.Faithful origin start x)
    (keys : (table.map (·.key)).Nodup) {ns : List (Text × Json)} {fs : List (Member σ)}
    (h : List.Forall₂ (IsMember x) ns fs) (known : ∀ f ∈ fs, f ∈ table) {seen : List Text}
    (fresh : ((fs.map (·.key)).reverse ++ seen).Nodup) (s : σ) :
    readMembers origin table seen s ns =
      .ok (fs.foldl (fun s f => f.copy x s) s, (fs.map (·.key)).reverse ++ seen) := by
  induction h generalizing seen s with
  | nil => rfl
  | @cons m f ns fs first _ ih =>
    obtain ⟨k, w⟩ := m
    obtain ⟨rfl, v, written, rearranged⟩ := first
    have ⟨hf, others⟩ := List.forall_mem_cons.mp known
    have again : (fs.map (·.key)).reverse ++ f.key :: seen =
        ((f :: fs).map (·.key)).reverse ++ seen := by simp
    rw [← again] at fresh ⊢
    have unseen : f.key ∉ seen := by
      have tail := (List.nodup_append.mp fresh).2.1
      exact (List.nodup_cons.mp tail).1
    have read := (faithful f hf).read written rearranged s
    simp only [readMembers, find?_key keys hf, if_neg unseen, read]
    exact ih others fresh (f.copy x s)

theorem foldl_copy_left_out (faithful : ∀ f ∈ table, f.Faithful origin start x)
    (left_out : ∀ f ∈ table, f.written x = none) :
    table.foldl (fun s f => f.copy x s) start = start := by
  induction table with
  | nil => rfl
  | cons f table ih =>
    have ⟨first, others⟩ := List.forall_mem_cons.mp faithful
    have ⟨absent, later⟩ := List.forall_mem_cons.mp left_out
    rw [List.foldl_cons, (first.left_out absent).2]
    exact ih others later

/-- Fields of a record that can be carried over in any order and together make up the record. -/
structure Independent (table : List (Member σ)) (start x : σ) : Prop where
  keys : (table.map (·.key)).Nodup
  commute : table.Pairwise fun f g => ∀ s, g.copy x (f.copy x s) = f.copy x (g.copy x s)
  whole : table.foldl (fun s f => f.copy x s) start = x

theorem foldl_copy_perm (independent : Independent table start x) {fs gs : List (Member σ)}
    (perm : fs.Perm gs) (known : ∀ f ∈ fs, f ∈ table) (s : σ) :
    fs.foldl (fun s f => f.copy x s) s = gs.foldl (fun s f => f.copy x s) s := by
  have swap : ∀ f ∈ table, ∀ g ∈ table, ∀ s, g.copy x (f.copy x s) = f.copy x (g.copy x s) :=
    independent.commute.forall_of_forall_of_flip (fun _ _ _ => rfl)
      (independent.commute.imp fun h s => (h s).symm)
  exact perm.foldl_eq' (fun f hf g hg s => swap f (known f hf) g (known g hg) s) s

theorem foldl_copy_shown (faithful : ∀ f ∈ table, f.Faithful origin start x)
    (independent : Independent table start x) :
    (shown table x).foldl (fun s f => f.copy x s) start = x := by
  have parts := (List.filter_append_perm (fun f : Member σ => !(f.written x).isSome) table).symm
  have left_out : (table.filter fun f => !(f.written x).isSome).foldl (fun s f => f.copy x s) start =
      start :=
    foldl_copy_left_out (fun f hf => faithful f (List.mem_of_mem_filter hf))
      fun f hf => by simpa using (List.mem_filter.mp hf).2
  have folded := foldl_copy_perm independent parts (fun _ hf => hf) start
  rw [independent.whole, List.foldl_append, left_out] at folded
  simpa [shown] using folded.symm

/-- A record is read back from its members in any order. -/
theorem readsAs_record {name : Text} (faithful : ∀ f ∈ table, f.Faithful origin start x)
    (independent : Independent table start x) :
    ReadsAs (record name table start origin) (.obj (members table x)) x := by
  refine ⟨distinct_members faithful independent.keys, ?_⟩
  rintro _ ⟨own, ns, rfl, rearranged, perm⟩
  obtain ⟨fs, fields, same⟩ := exists_fields rearranged perm
  have known : ∀ f ∈ fs, f ∈ table := fun f hf => List.mem_of_mem_filter (same.mem_iff.mp hf)
  have fresh : ((fs.map fun f : Member σ => f.key).reverse ++ []).Nodup := by
    rw [List.append_nil, List.nodup_reverse, (same.map _).nodup_iff]
    exact independent.keys.sublist (List.filter_sublist.map _)
  have read := readMembers_fields faithful independent.keys fields known fresh start
  have complete : table.find? (fun f => f.required &&
      !((fs.map fun f : Member σ => f.key).reverse ++ []).contains f.key) = none := by
    rw [List.find?_eq_none]
    intro f hf
    cases written : f.written x with
    | none => simp [((faithful f hf).left_out written).1]
    | some v =>
      have hfs : f ∈ fs := same.mem_iff.mpr (List.mem_filter.mpr ⟨hf, by rw [written]; rfl⟩)
      have present : f.key ∈ fs.map fun f => f.key := List.mem_map.mpr ⟨f, hfs, rfl⟩
      simpa using fun _ => List.mem_map.mp present
  rw [record, read]
  simp only [complete]
  rw [foldl_copy_perm independent same known, foldl_copy_shown faithful independent]

end Record

end FieldMap.Json
