import Mathlib.Data.List.Perm.Basic
import FieldMap.Json.Basic
import FieldMap.Proofs.Trees

/-!
JSON values up to the order of members. A value with distinct keys in each of its objects is the same
up to order after its members have been sorted.
-/

namespace FieldMap.Json

mutual

/-- The second value is the first one with the members of its objects in any order. -/
def Rearranged : Json → Json → Prop
  | .arr items, w => ∃ others, w = .arr others ∧ ItemsRearranged items others
  | .obj members, w =>
    ∃ own others, w = .obj others ∧ MembersRearranged members own ∧ own.Perm others
  | v, w => w = v

def ItemsRearranged : List Json → List Json → Prop
  | [], ws => ws = []
  | v :: vs, ws => ∃ w others, ws = w :: others ∧ Rearranged v w ∧ ItemsRearranged vs others

def MembersRearranged : List (Text × Json) → List (Text × Json) → Prop
  | [], ws => ws = []
  | (k, v) :: rest, ws =>
    ∃ w others, ws = (k, w) :: others ∧ Rearranged v w ∧ MembersRearranged rest others

end

mutual

def Distinct : Json → Prop
  | .arr items => AllDistinct items
  | .obj members => (members.map (·.1)).Nodup ∧ MembersDistinct members
  | _ => True

def AllDistinct : List Json → Prop
  | [] => True
  | v :: vs => v.Distinct ∧ AllDistinct vs

def MembersDistinct : List (Text × Json) → Prop
  | [] => True
  | (_, v) :: rest => v.Distinct ∧ MembersDistinct rest

end

theorem allDistinct_iff {vs : List Json} : AllDistinct vs ↔ ∀ v ∈ vs, v.Distinct :=
  Trees.iff_forall trivial (fun _ _ => Iff.rfl) vs

theorem membersDistinct_iff {ms : List (Text × Json)} :
    MembersDistinct ms ↔ ∀ m ∈ ms, m.2.Distinct :=
  Trees.iff_forall trivial (fun _ _ => Iff.rfl) ms

mutual

theorem Rearranged.refl (v : Json) : Rearranged v v := by
  cases v with
  | arr items => exact ⟨items, rfl, ItemsRearranged.refl items⟩
  | obj members => exact ⟨members, members, rfl, MembersRearranged.refl members, .refl members⟩
  | _ => rfl

theorem ItemsRearranged.refl (vs : List Json) : ItemsRearranged vs vs := by
  cases vs with
  | nil => rfl
  | cons v vs => exact ⟨v, vs, rfl, Rearranged.refl v, ItemsRearranged.refl vs⟩

theorem MembersRearranged.refl (ms : List (Text × Json)) : MembersRearranged ms ms := by
  cases ms with
  | nil => rfl
  | cons m ms =>
    obtain ⟨k, v⟩ := m
    exact ⟨v, ms, rfl, Rearranged.refl v, MembersRearranged.refl ms⟩

end

theorem insertMember_perm {k : Text} (v : Json) {ms : List (Text × Json)} (h : k ∉ ms.map (·.1)) :
    (insertMember k v ms).Perm ((k, v) :: ms) := by
  induction ms with
  | nil => exact .refl _
  | cons m ms ih =>
    obtain ⟨n, u⟩ := m
    rw [List.map_cons, List.mem_cons, not_or] at h
    rw [insertMember]
    split
    · exact .refl _
    · rw [if_neg h.1]
      exact ((ih h.2).cons (n, u)).trans (.swap (k, v) (n, u) ms)

theorem sortedMembers_perm {ms : List (Text × Json)} (h : (ms.map (·.1)).Nodup) :
    (sortedMembers ms).Perm (ms.map fun m => (m.1, m.2.sorted)) := by
  induction ms with
  | nil => exact .refl _
  | cons m ms ih =>
    obtain ⟨k, v⟩ := m
    rw [List.map_cons, List.nodup_cons] at h
    have others := ih h.2
    have fresh : k ∉ (sortedMembers ms).map (·.1) := by
      rw [(others.map _).mem_iff, List.map_map]
      exact h.1
    have absent : (sortedMembers ms).any (·.1 = k) = false := by
      rw [List.any_eq_false]
      intro n hn same
      exact fresh (List.mem_map.mpr ⟨n, hn, of_decide_eq_true same⟩)
    rw [sortedMembers]
    simp only [absent, Bool.false_eq_true, if_false]
    exact (insertMember_perm v.sorted fresh).trans (others.cons _)

mutual

theorem rearranged_sorted (v : Json) (h : v.Distinct) : Rearranged v v.sorted := by
  cases v with
  | arr items => exact ⟨_, rfl, itemsRearranged_sorted items h⟩
  | obj members =>
    exact ⟨_, _, rfl, membersRearranged_sorted members h.2, (sortedMembers_perm h.1).symm⟩
  | _ => rfl

theorem itemsRearranged_sorted (vs : List Json) (h : AllDistinct vs) :
    ItemsRearranged vs (sortedItems vs) := by
  cases vs with
  | nil => rfl
  | cons v vs => exact ⟨_, _, rfl, rearranged_sorted v h.1, itemsRearranged_sorted vs h.2⟩

theorem membersRearranged_sorted (ms : List (Text × Json)) (h : MembersDistinct ms) :
    MembersRearranged ms (ms.map fun m => (m.1, m.2.sorted)) := by
  cases ms with
  | nil => rfl
  | cons m ms =>
    obtain ⟨k, v⟩ := m
    exact ⟨_, _, rfl, rearranged_sorted v h.1, membersRearranged_sorted ms h.2⟩

end

end FieldMap.Json
