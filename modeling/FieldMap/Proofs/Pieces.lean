import Mathlib.Data.List.Infix
import Mathlib.Data.List.TakeWhile
import FieldMap.Mapping.Basic
import FieldMap.Target.Completion

/-!
Texts taken apart and put together. Splitting at a separator and joining with it are inverse on
pieces without the separator, so a path text stands for exactly one list of names. The names of a
mapping are such pieces: none is empty, holds a slash or has white space at an end.
-/

namespace FieldMap.Text

theorem not_mem_of_mem_splitOn {sep : Char} {t piece : Text} (h : piece ∈ List.splitOn sep t) :
    sep ∉ piece := by
  induction t generalizing piece with
  | nil =>
    obtain rfl := List.mem_singleton.mp h
    exact List.not_mem_nil
  | cons c cs ih =>
    rw [List.splitOn_cons_eq_if_modifyHead] at h
    by_cases hc : c = sep
    · rw [hc, beq_self_eq_true, if_pos rfl, List.mem_cons] at h
      rcases h with rfl | h
      · exact List.not_mem_nil
      · exact ih h
    · obtain ⟨first, rest, hp⟩ := List.exists_cons_of_ne_nil (List.splitOn_ne_nil sep cs)
      rw [hp] at h ih
      simp only [beq_iff_eq, hc, if_false, List.modifyHead_cons, List.mem_cons] at h
      rcases h with rfl | h
      · simpa [Ne.symm hc] using ih List.mem_cons_self
      · exact ih (List.mem_cons_of_mem _ h)

theorem isInfix_intercalate {sep t : Text} {ts : List Text} (h : t ∈ ts) :
    t <:+: List.intercalate sep ts := by
  induction ts with
  | nil => cases h
  | cons u us ih =>
    cases us with
    | nil =>
      obtain rfl := List.mem_singleton.mp h
      rw [List.intercalate_singleton]
    | cons v vs =>
      rw [List.intercalate_cons_cons]
      rcases List.mem_cons.mp h with rfl | later
      · rw [List.append_assoc]
        exact (List.prefix_append t _).isInfix
      · exact (ih later).trans (List.suffix_append _ _).isInfix

theorem isInfix_of_mem_splitOn {sep : Char} {t piece : Text} (h : piece ∈ List.splitOn sep t) :
    piece <:+: t := by
  have inside : piece <:+: List.intercalate [sep] (List.splitOn sep t) := isInfix_intercalate h
  rwa [List.intercalate_splitOn] at inside

theorem mem_of_mem_intercalate {sep : Text} {ts : List Text} {c : Char}
    (h : c ∈ List.intercalate sep ts) : c ∈ sep ∨ ∃ t ∈ ts, c ∈ t := by
  induction ts with
  | nil => cases h
  | cons t ts ih =>
    cases ts with
    | nil =>
      rw [List.intercalate_singleton] at h
      exact Or.inr ⟨t, List.mem_cons_self, h⟩
    | cons u us =>
      rw [List.intercalate_cons_cons, List.append_assoc, List.mem_append, List.mem_append] at h
      rcases h with first | between | later
      · exact Or.inr ⟨t, List.mem_cons_self, first⟩
      · exact Or.inl between
      · exact (ih later).imp_right fun ⟨v, hv, hc⟩ => ⟨v, List.mem_cons_of_mem _ hv, hc⟩

theorem isSome_after?_iff {mark t : Text} : (after? mark t).isSome = true ↔ mark <+: t := by
  constructor
  · intro h
    obtain ⟨rest, e⟩ := Option.isSome_iff_exists.mp h
    exact ⟨rest, (eq_append_of_after? e).symm⟩
  · rintro ⟨rest, rfl⟩
    rw [after?_append]
    rfl

theorem contains_iff_isInfix {mark t : Text} : contains mark t = true ↔ mark <:+: t := by
  induction t with
  | nil => simp [contains]
  | cons c cs ih => rw [contains, Bool.or_eq_true, isSome_after?_iff, ih, List.infix_cons_iff]

theorem dropEndWhile_isPrefix (p : Char → Bool) (t : Text) : dropEndWhile p t <+: t := by
  rw [← List.reverse_suffix, dropEndWhile, List.reverse_reverse]
  exact List.dropWhile_suffix p

theorem dropEndWhile_cons (p : Char → Bool) (c : Char) (t : Text) :
    dropEndWhile p (c :: t) =
      if dropEndWhile p t = [] ∧ p c then [] else c :: dropEndWhile p t := by
  simp only [dropEndWhile, List.reverse_cons, List.dropWhile_append, List.isEmpty_iff,
    List.reverse_eq_nil_iff]
  by_cases empty : t.reverse.dropWhile p = []
  · by_cases first : p c = true
    · simp [empty, first]
    · simp [empty, first]
  · simp [empty]

theorem exists_dropEndWhile_append (p : Char → Bool) (t : Text) :
    ∃ rest, t = dropEndWhile p t ++ rest ∧ ∀ c ∈ rest, p c = true := by
  refine ⟨(t.reverse.takeWhile p).reverse, ?_, ?_⟩
  · rw [dropEndWhile, ← List.reverse_append, List.takeWhile_append_dropWhile, List.reverse_reverse]
  · intro c hc
    exact List.mem_takeWhile_imp (List.mem_reverse.mp hc)

theorem dropEndWhile_dropWhile_isInfix (p q : Char → Bool) (t : Text) :
    dropEndWhile p (t.dropWhile q) <:+: t :=
  (dropEndWhile_isPrefix p _).isInfix.trans (List.dropWhile_suffix q).isInfix

theorem trim_isInfix (t : Text) : trim t <:+: t :=
  dropEndWhile_dropWhile_isInfix isBlank isBlank t

theorem dropWhile_eq_self {p : Char → Bool} {t : Text} (h : ∀ c ∈ t.head?, p c = false) :
    t.dropWhile p = t := by
  cases t with
  | nil => rfl
  | cons c cs => simp [h c rfl]

theorem dropEndWhile_eq_self {p : Char → Bool} {t : Text} (h : ∀ c ∈ t.getLast?, p c = false) :
    dropEndWhile p t = t := by
  rw [dropEndWhile, dropWhile_eq_self, List.reverse_reverse]
  simpa using h

theorem head?_dropWhile {p : Char → Bool} {t : Text} {c : Char} (h : c ∈ (t.dropWhile p).head?) :
    p c = false := by
  have stop := List.head?_dropWhile_not p t
  rw [Option.mem_def.mp h] at stop
  simpa using stop

theorem getLast?_dropEndWhile {p : Char → Bool} {t : Text} {c : Char}
    (h : c ∈ (dropEndWhile p t).getLast?) : p c = false := by
  rw [dropEndWhile, List.getLast?_reverse] at h
  exact head?_dropWhile h

theorem head?_dropEndWhile {p : Char → Bool} {t : Text} {c : Char}
    (h : c ∈ (dropEndWhile p t).head?) : c ∈ t.head? := by
  obtain ⟨last, e⟩ := dropEndWhile_isPrefix p t
  rw [← e, List.head?_append, Option.mem_def.mp h]
  rfl

theorem getLast?_dropWhile {p : Char → Bool} {t : Text} {c : Char}
    (h : c ∈ (t.dropWhile p).getLast?) : c ∈ t.getLast? := by
  rw [← List.takeWhile_append_dropWhile (p := p) (l := t), List.getLast?_append, Option.mem_def.mp h]
  rfl

theorem head?_trim {t : Text} {c : Char} (h : c ∈ (trim t).head?) : isBlank c = false :=
  head?_dropWhile (head?_dropEndWhile h)

theorem getLast?_trim {t : Text} {c : Char} (h : c ∈ (trim t).getLast?) : isBlank c = false :=
  getLast?_dropEndWhile h

theorem trim_eq_self {t : Text} (first : ∀ c ∈ t.head?, isBlank c = false)
    (last : ∀ c ∈ t.getLast?, isBlank c = false) : trim t = t := by
  rw [trim, dropWhile_eq_self first, dropEndWhile_eq_self last]

@[simp] theorem trim_trim (t : Text) : trim (trim t) = trim t :=
  trim_eq_self (fun _ => head?_trim) (fun _ => getLast?_trim)

theorem head?_intercalate {sep t : Text} {ts : List Text} (h : t ≠ []) :
    (List.intercalate sep (t :: ts)).head? = t.head? := by
  cases ts with
  | nil => rw [List.intercalate_singleton]
  | cons u us =>
    obtain ⟨c, cs, rfl⟩ := List.exists_cons_of_ne_nil h
    rw [List.intercalate_cons_cons]
    rfl

theorem intercalate_ne_nil {sep : Text} {ts : List Text} (h : ∀ t ∈ ts, t ≠ []) (ne : ts ≠ []) :
    List.intercalate sep ts ≠ [] := by
  obtain ⟨t, ts, rfl⟩ := List.exists_cons_of_ne_nil ne
  intro e
  have first : (List.intercalate sep (t :: ts)).head? = t.head? :=
    head?_intercalate (h t List.mem_cons_self)
  rw [e] at first
  exact h t List.mem_cons_self (List.head?_eq_none_iff.mp first.symm)

theorem getLast?_intercalate {sep : Text} {ts : List Text} (h : ∀ t ∈ ts, t ≠ []) :
    (List.intercalate sep ts).getLast? = ts.getLast?.bind List.getLast? := by
  induction ts with
  | nil => rfl
  | cons t ts ih =>
    cases ts with
    | nil =>
      rw [List.intercalate_singleton]
      rfl
    | cons u us =>
      have rest : ∀ v ∈ u :: us, v ≠ [] := fun v hv => h v (List.mem_cons_of_mem _ hv)
      rw [List.intercalate_cons_cons,
        List.getLast?_append_of_ne_nil _ (intercalate_ne_nil rest (List.cons_ne_nil _ _)), ih rest,
        List.getLast?_cons_cons]

end FieldMap.Text

namespace FieldMap.Target

structure IsName (name : Text) : Prop where
  ne_nil : name ≠ []
  no_slash : '/' ∉ name
  trimmed : Text.trim name = name

theorem isName_of_mem_segments {m : Mapping} {name : Text} (h : name ∈ m.segments) :
    IsName name := by
  rw [Mapping.segments, List.mem_filter] at h
  obtain ⟨piece, hp, rfl⟩ := List.mem_map.mp h.1
  refine ⟨by simpa using h.2, ?_, Text.trim_trim piece⟩
  intro slash
  exact Text.not_mem_of_mem_splitOn hp ((Text.trim_isInfix piece).subset slash)

theorem IsName.head_ne {name : Text} (h : IsName name) {c : Char} (hc : c ∈ name.head?) :
    c ≠ '/' ∧ Text.isBlank c = false := by
  refine ⟨?_, Text.head?_trim (t := name) (by rwa [h.trimmed])⟩
  rintro rfl
  exact h.no_slash (List.mem_of_mem_head? hc)

theorem IsName.last_ne {name : Text} (h : IsName name) {c : Char} (hc : c ∈ name.getLast?) :
    c ≠ '/' ∧ Text.isBlank c = false := by
  refine ⟨?_, Text.getLast?_trim (t := name) (by rwa [h.trimmed])⟩
  rintro rfl
  exact h.no_slash (List.mem_of_getLast? hc)

theorem splitOn_pathText {names : List Text} (free : ∀ t ∈ names, '/' ∉ t) (ne : names ≠ []) :
    List.splitOn '/' (pathText names) = names :=
  List.splitOn_intercalate _ free ne

theorem pathText_injective {a b : List Text} (ha : a ≠ []) (hb : b ≠ [])
    (fa : ∀ t ∈ a, '/' ∉ t) (fb : ∀ t ∈ b, '/' ∉ t) (h : pathText a = pathText b) : a = b := by
  rw [← splitOn_pathText fa ha, ← splitOn_pathText fb hb, h]

theorem pathText_ends {names : List Text} (h : ∀ t ∈ names, IsName t) {c : Char}
    (hc : c ∈ (pathText names).head? ∨ c ∈ (pathText names).getLast?) :
    c ≠ '/' ∧ Text.isBlank c = false := by
  rcases hc with hc | hc
  · cases names with
    | nil => simp [pathText] at hc
    | cons t ts =>
      have ht := h t List.mem_cons_self
      rw [pathText, Text.head?_intercalate ht.ne_nil] at hc
      exact ht.head_ne hc
  · rw [pathText, Text.getLast?_intercalate fun t ht => (h t ht).ne_nil] at hc
    obtain ⟨t, ht, hct⟩ := Option.bind_eq_some_iff.mp hc
    exact (h t (List.mem_of_getLast? ht)).last_ne hct

theorem segments_placeholder {names : List Text} (h : ∀ t ∈ names, IsName t) (ne : names ≠ []) :
    (Mapping.placeholder (pathText names)).segments = names := by
  have trimmed : Text.trim (pathText names) = pathText names :=
    Text.trim_eq_self (fun c hc => (pathText_ends h (Or.inl hc)).2)
      (fun c hc => (pathText_ends h (Or.inr hc)).2)
  have stripped : Mapping.stripSlashes (pathText names) = pathText names := by
    rw [Mapping.stripSlashes, Text.dropWhile_eq_self, Text.dropEndWhile_eq_self]
    · intro c hc
      simpa using (pathText_ends h (Or.inr hc)).1
    · intro c hc
      simpa using (pathText_ends h (Or.inl hc)).1
  have whole : pathText names ≠ [] := Text.intercalate_ne_nil (fun t ht => (h t ht).ne_nil) ne
  have path : (Mapping.placeholder (pathText names)).effectivePath = pathText names := by
    simp only [Mapping.effectivePath, Mapping.placeholder, trimmed, stripped, if_neg whole]
  rw [Mapping.segments, path, splitOn_pathText (fun t ht => (h t ht).no_slash) ne]
  rw [List.map_congr_left (g := id) fun t ht => (h t ht).trimmed, List.map_id, List.filter_eq_self]
  intro t ht
  simpa using (h t ht).ne_nil

end FieldMap.Target
