import FieldMap.Text.Basic

/-!
The table of namespaces of a stylesheet, in ascending order of the prefixes. The entry `default` is
the namespace of names without a prefix.
-/

namespace FieldMap

/-- Prefixes and their URIs, strictly ascending by prefix. -/
structure Namespaces where
  entries : List (Text × Text)
  ordered : entries.Pairwise (fun a b => a.1 < b.1)
deriving DecidableEq

namespace Namespaces

def empty : Namespaces :=
  ⟨[], .nil⟩

/-- Inserts an entry in its place; an entry for the same name is replaced. -/
def insertEntry (name uri : Text) : List (Text × Text) → List (Text × Text)
  | [] => [(name, uri)]
  | (n, u) :: rest =>
    if name < n then (name, uri) :: (n, u) :: rest
    else if name = n then (name, uri) :: rest
    else (n, u) :: insertEntry name uri rest

theorem mem_insertEntry {name uri : Text} {entries : List (Text × Text)} {e : Text × Text}
    (h : e ∈ insertEntry name uri entries) : e = (name, uri) ∨ e ∈ entries := by
  induction entries with
  | nil => simpa [insertEntry] using h
  | cons x rest ih =>
    obtain ⟨n, u⟩ := x
    simp only [insertEntry] at h
    split at h
    · simpa using h
    · split at h
      · rcases List.mem_cons.mp h with rfl | h
        · exact Or.inl rfl
        · exact Or.inr (List.mem_cons_of_mem _ h)
      · rcases List.mem_cons.mp h with rfl | h
        · exact Or.inr (by simp)
        · rcases ih h with h | h
          · exact Or.inl h
          · exact Or.inr (List.mem_cons_of_mem _ h)

theorem ordered_insertEntry (name uri : Text) (entries : List (Text × Text))
    (h : entries.Pairwise (fun a b => a.1 < b.1)) :
    (insertEntry name uri entries).Pairwise (fun a b => a.1 < b.1) := by
  induction entries with
  | nil => simp [insertEntry]
  | cons x rest ih =>
    obtain ⟨n, u⟩ := x
    rw [List.pairwise_cons] at h
    simp only [insertEntry]
    split
    · next hlt =>
      refine List.pairwise_cons.mpr ⟨?_, List.pairwise_cons.mpr h⟩
      intro e he
      rcases List.mem_cons.mp he with rfl | he
      · exact hlt
      · exact List.lt_trans hlt (h.1 e he)
    · split
      · next heq =>
        subst heq
        exact List.pairwise_cons.mpr h
      · next hnlt hne =>
        refine List.pairwise_cons.mpr ⟨?_, ih h.2⟩
        intro e he
        rcases mem_insertEntry he with rfl | he
        · rcases Std.lt_trichotomy n name with hlt | heq | hgt
          · exact hlt
          · exact absurd heq.symm hne
          · exact absurd hgt hnlt
        · exact h.1 e he

def insert (t : Namespaces) (name uri : Text) : Namespaces :=
  ⟨insertEntry name uri t.entries, ordered_insertEntry name uri t.entries t.ordered⟩

def ofList (entries : List (Text × Text)) : Namespaces :=
  entries.foldl (fun t e => t.insert e.1 e.2) empty

def defaultKey : Text := "default"

theorem nodup_names (t : Namespaces) : (t.entries.map (·.1)).Nodup := by
  refine List.pairwise_map.mpr (t.ordered.imp ?_)
  intro a b less same
  rw [same] at less
  exact List.lt_irrefl _ less

def isEmpty (t : Namespaces) : Bool :=
  t.entries.isEmpty

def defaultUri? (t : Namespaces) : Option Text :=
  (t.entries.find? (·.1 = defaultKey)).map (·.2)

def prefixed (t : Namespaces) : List (Text × Text) :=
  t.entries.filter (·.1 ≠ defaultKey)

end Namespaces

end FieldMap
