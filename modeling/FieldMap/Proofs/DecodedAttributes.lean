import FieldMap.Proofs.Pieces
import FieldMap.Mapping.Encoding

/-!
What reading a record keeps: a property of the start that no field breaks holds of the result. The
attributes of a mapping set that is read from JSON therefore have trimmed names.
-/

namespace FieldMap.Json

section record

variable {σ : Type} {I : σ → Prop}

def Member.Keeps (I : σ → Prop) (f : Member σ) : Prop :=
  ∀ origin v a s, f.decode origin v = .ok a → I s → I (f.set a s)

theorem Member.Keeps.read {f : Member σ} (h : f.Keeps I) {origin : Origin} {v : Json} {s s' : σ}
    (hs : I s) (e : f.read origin v s = .ok s') : I s' := by
  unfold Member.read at e
  cases read : f.decode origin v with
  | error fault => simp [read, Except.map] at e
  | ok a =>
    simp only [read, Except.map, Except.ok.injEq] at e
    exact e ▸ h origin v a s read hs

variable {origin : Origin} {table : List (Member σ)} (keeps : ∀ f ∈ table, f.Keeps I)

include keeps

theorem readMembers_keeps {seen seen' : List Text} {s s' : σ} {members : List (Text × Json)}
    (hs : I s) (e : readMembers origin table seen s members = .ok (s', seen')) : I s' := by
  induction members generalizing seen s with
  | nil =>
    cases e
    exact hs
  | cons member rest ih =>
    obtain ⟨k, v⟩ := member
    simp only [readMembers] at e
    split at e
    · split at e
      · exact ih hs e
      · cases e
    · next f found =>
      split at e
      · cases e
      · split at e
        · cases e
        · next next read =>
          exact ih ((keeps f (List.mem_of_find?_eq_some found)).read hs read) e

omit keeps in
theorem readItems_keeps {fs left : List (Member σ)} (keeps : ∀ f ∈ fs, f.Keeps I) {s s' : σ}
    {items rest : List Json} (hs : I s) (e : readItems origin fs s items = .ok (s', left, rest)) :
    I s' := by
  induction fs generalizing s items with
  | nil =>
    cases e
    exact hs
  | cons f fs ih =>
    rw [List.forall_mem_cons] at keeps
    cases items with
    | nil =>
      cases e
      exact hs
    | cons v vs =>
      simp only [readItems] at e
      split at e
      · cases e
      · next next read => exact ih keeps.2 (keeps.1.read hs read) e

theorem record_keeps {name : Text} {start s : σ} {v : Json} (hs : I start)
    (e : record name table start origin v = .ok s) : I s := by
  unfold record at e
  split at e
  · split at e
    · cases e
    · next read =>
      split at e
      · cases e
      · cases e
        exact readMembers_keeps keeps hs read
  · next members _ =>
    cases read : readMembers origin table [] start members <;> simp [read, Except.bind] at e
  · split at e
    · cases e
    · next read =>
      split at e
      · cases e
      · cases e
        exact readItems_keeps keeps hs read
    · split at e <;> cases e
  · cases e

end record

theorem forall_of_list {α : Type} {P : α → Prop} {decode : Decoder α}
    (h : ∀ v a, decode v = .ok a → P a) {v : Json} {as : List α} (e : list decode v = .ok as) :
    ∀ a ∈ as, P a := by
  have items (vs : List Json) : ∀ as, allItems decode vs = .ok as → ∀ a ∈ as, P a := by
    induction vs with
    | nil =>
      intro as e
      cases e
      exact List.forall_mem_nil _
    | cons v vs ih =>
      intro as e
      simp only [allItems] at e
      split at e
      · cases e
      · next first read =>
        cases later : allItems decode vs with
        | error fault => simp [later, Except.map] at e
        | ok others =>
          simp only [later, Except.map, Except.ok.injEq] at e
          subst e
          exact List.forall_mem_cons.2 ⟨h v first read, ih others later⟩
  cases v with
  | arr vs => exact items vs as e
  | _ => cases e

theorem forall_of_optional {α : Type} {P : α → Prop} {decode : Decoder α}
    (h : ∀ v a, decode v = .ok a → P a) {v : Json} {a? : Option α}
    (e : optional decode v = .ok a?) : ∀ a ∈ a?, P a := by
  unfold optional at e
  split at e
  · cases e
    nofun
  · cases read : decode v with
    | error fault => simp [read, Except.map] at e
    | ok a =>
      simp only [read, Except.map, Except.ok.injEq] at e
      subst e
      intro b hb
      cases hb
      exact h v a read

theorem lt_of_count {v : Json} {n : Nat} (e : count v = .ok n) : n < 0x100000000 := by
  unfold count at e
  split at e
  · split at e
    · cases e
      omega
    · cases e
  · cases e

end FieldMap.Json

namespace FieldMap

open Json (Origin)

theorem Attribute.trim_name_of_ofLoose {raw : Attribute.Loose} {a : Attribute}
    (h : Attribute.ofLoose raw = .ok a) : Text.trim a.name = a.name := by
  unfold Attribute.ofLoose at h
  split at h
  · cases h
  · split at h
    · cases h
      exact Text.trim_trim _
    · split at h
      · cases h
        exact Text.trim_trim _
      · cases h
    · cases h
      exact Text.trim_trim _
    · cases h

theorem Attribute.exists_loose {origin : Origin} {v : Json} {a : Attribute}
    (h : Attribute.decode origin v = .ok a) : ∃ raw, Attribute.ofLoose raw = .ok a := by
  unfold Attribute.decode at h
  cases read : Json.record "RawAttributeSpec" table ⟨[], none, false, false, none⟩ origin v with
  | error fault =>
    simp only [read, bind, Except.bind] at h
    cases h
  | ok raw =>
    simp only [read, bind, Except.bind] at h
    split at h
    · next b e =>
      cases h
      exact ⟨raw, e⟩
    · cases h

theorem Attribute.trim_name_of_decode {origin : Origin} {v : Json} {a : Attribute}
    (h : Attribute.decode origin v = .ok a) : Text.trim a.name = a.name := by
  obtain ⟨raw, e⟩ := exists_loose h
  exact trim_name_of_ofLoose e

def Mapping.Trimmed (m : Mapping) : Prop :=
  ∀ a ∈ m.attributes, Text.trim a.name = a.name

theorem Mapping.trimmed_of_decode {origin : Origin} {v : Json} {m : Mapping}
    (h : Mapping.decode origin v = .ok m) : m.Trimmed := by
  have start : Mapping.Trimmed {} := List.forall_mem_nil _
  refine Json.record_keeps ?_ start h
  -- Only the field of the attributes changes them.
  intro f hf
  simp only [Mapping.table, List.mem_cons, List.not_mem_nil, or_false] at hf
  rcases hf with rfl | rfl | rfl | rfl | rfl | rfl | rfl | rfl | rfl | rfl | rfl | rfl
  case inr.inr.inr.inr.inr.inr.inr.inl =>
    intro _ _ _ _ read _
    exact Json.forall_of_list (fun _ _ => Attribute.trim_name_of_decode) read
  all_goals exact fun _ _ _ _ _ kept => kept

theorem MappingSet.trimmed_of_decode {origin : Origin} {v : Json} {set : MappingSet}
    (h : MappingSet.decode origin v = .ok set) : ∀ m ∈ set.fields, m.Trimmed := by
  have start : ∀ m ∈ ({} : MappingSet).fields, m.Trimmed := List.forall_mem_nil _
  refine Json.record_keeps (I := fun set => ∀ m ∈ set.fields, m.Trimmed) ?_ start h
  intro f hf
  simp only [MappingSet.table, List.mem_cons, List.not_mem_nil, or_false] at hf
  rcases hf with rfl | rfl | rfl | rfl | rfl | rfl
  case inl =>
    intro _ _ _ _ read _
    exact Json.forall_of_list (fun _ _ => Mapping.trimmed_of_decode) read
  all_goals exact fun _ _ _ _ _ kept => kept

end FieldMap
