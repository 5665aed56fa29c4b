import FieldMap.Proofs.MarkupNodes
import FieldMap.Mapping.Basic
import FieldMap.Target.Completion

/-!
Text of comments. Pairs of hyphens are taken apart from the left, which leaves a pair where three
hyphens stood in a row before another character, and nowhere else. A text without three hyphens in a
row is therefore safe in a comment; such a row cannot come about where a text is put between other
characters.
-/

namespace FieldMap.Markup

open Xml

def RowFree (t : Text) : Prop :=
  ¬ "---".toList <:+: t

instance (t : Text) : Decidable (RowFree t) :=
  inferInstanceAs (Decidable (¬ "---".toList <:+: t))

theorem RowFree.of_infix {t u : Text} (h : RowFree t) (inside : u <:+: t) : RowFree u :=
  fun row => h (row.trans inside)

theorem hyphens_isInfix_append {row t u : Text} (hyphens : ∀ d ∈ row, d = '-')
    (seam : t.getLast? ≠ some '-' ∨ u.head? ≠ some '-') (h : row <:+: t ++ u) :
    row <:+: t ∨ row <:+: u := by
  rcases List.infix_append_iff.1 h with left | right | ⟨before, after, rfl, hb, ha⟩
  · exact Or.inl left
  · exact Or.inr right
  · rcases List.eq_nil_or_concat before with rfl | ⟨before, c, rfl⟩
    · exact Or.inr ha.isInfix
    · cases after with
      | nil =>
        rw [List.append_nil]
        exact Or.inl hb.isInfix
      | cons d after =>
        obtain ⟨front, rfl⟩ := hb
        obtain ⟨rest, rfl⟩ := ha
        have hc : c = '-' := hyphens c (by simp)
        have hd : d = '-' := hyphens d (by simp)
        subst hc hd
        simp at seam

theorem RowFree.append {t u : Text} (ht : RowFree t) (hu : RowFree u)
    (seam : t.getLast? ≠ some '-' ∨ u.head? ≠ some '-') : RowFree (t ++ u) :=
  fun row => (hyphens_isInfix_append (by simp) seam row).elim ht hu

theorem rowFree_of_not_mem {t : Text} (h : '-' ∉ t) : RowFree t :=
  fun row => h (row.subset (by decide))

theorem head?_spaceHyphens (t : Text) : (spaceHyphens t).head? = t.head? := by
  fun_cases spaceHyphens t <;> rfl

theorem pair_isInfix_cons {c : Char} {t : Text} :
    "--".toList <:+: c :: t ↔ (c = '-' ∧ t.head? = some '-') ∨ "--".toList <:+: t := by
  rw [List.infix_cons_iff]
  refine or_congr_left ?_
  cases t with
  | nil => simp
  | cons d t => simp [eq_comm]

/-- Three hyphens in a row with another character after them. -/
def InnerRow (t : Text) : Prop :=
  ∃ before c after, t = before ++ "---".toList ++ c :: after

theorem not_innerRow_nil : ¬ InnerRow [] := by
  rintro ⟨before, c, after, e⟩
  simp at e

theorem innerRow_cons {c : Char} {t : Text} :
    InnerRow (c :: t) ↔ (∃ d after, c :: t = '-' :: '-' :: '-' :: d :: after) ∨ InnerRow t := by
  constructor
  · rintro ⟨before, d, after, e⟩
    cases before with
    | nil => exact Or.inl ⟨d, after, e⟩
    | cons b before => exact Or.inr ⟨before, d, after, (List.cons.inj e).2⟩
  · rintro (⟨d, after, e⟩ | ⟨before, d, after, rfl⟩)
    · exact ⟨[], d, after, e⟩
    · exact ⟨c :: before, d, after, rfl⟩

theorem innerRow_pair {t : Text} :
    InnerRow ('-' :: '-' :: t) ↔ (∃ d after, t = '-' :: d :: after) ∨ InnerRow t := by
  rw [innerRow_cons, innerRow_cons]
  constructor
  · rintro (⟨d, after, e⟩ | ⟨d, after, e⟩ | row)
    · exact Or.inl ⟨d, after, by simpa using e⟩
    · exact Or.inl ⟨'-', d :: after, by simpa using e⟩
    · exact Or.inr row
  · rintro (⟨d, after, rfl⟩ | row)
    · exact Or.inl ⟨d, after, rfl⟩
    · exact Or.inr (Or.inr row)

theorem RowFree.not_innerRow {t : Text} (h : RowFree t) : ¬ InnerRow t := by
  rintro ⟨before, c, after, rfl⟩
  exact h (List.infix_append before "---".toList (c :: after))

theorem commentText_pair (rest : Text) : commentText ('-' :: '-' :: rest) =
    '-' :: ' ' :: if commentText rest = [] then [] else '-' :: commentText rest := by
  by_cases empty : commentText rest = []
  · simp only [commentText] at empty ⊢
    simp [spaceHyphens, Text.dropEndWhile_cons, empty]
  · rw [if_neg empty]
    simp only [commentText] at empty ⊢
    simp [spaceHyphens, Text.dropEndWhile_cons, empty]

theorem commentText_cons {c : Char} {rest : Text} (apart : ¬ (c = '-' ∧ rest.head? = some '-')) :
    commentText (c :: rest) =
      if commentText rest = [] ∧ c = '-' then [] else c :: commentText rest := by
  have single : spaceHyphens (c :: rest) = c :: spaceHyphens rest := by
    refine spaceHyphens.eq_2 c rest ?_
    rintro tail rfl rfl
    exact apart ⟨rfl, rfl⟩
  rw [commentText, single, Text.dropEndWhile_cons, ← commentText]
  simp only [decide_eq_true_eq]

theorem apart_of_not_pair {c : Char} {rest : Text}
    (apart : ∀ tail, c = '-' → rest = '-' :: tail → False) :
    ¬ (c = '-' ∧ rest.head? = some '-') := by
  rintro ⟨hyphen, e⟩
  obtain ⟨tail, e⟩ := List.head?_eq_some_iff.1 e
  exact apart tail hyphen e

theorem commentText_eq_nil_iff {t : Text} : commentText t = [] ↔ t = [] ∨ t = ['-'] := by
  fun_induction spaceHyphens t with
  | case1 rest ih => simp [commentText_pair]
  | case2 c rest apart ih =>
    have next := apart_of_not_pair apart
    rw [commentText_cons next, ite_eq_left_iff, imp_iff_not_or, not_not, ih]
    constructor
    · rintro (⟨rfl | rfl, rfl⟩ | e)
      · exact Or.inr rfl
      · exact absurd ⟨rfl, rfl⟩ next
      · cases e
    · rintro (e | e)
      · cases e
      · cases e
        exact Or.inl ⟨Or.inl rfl, rfl⟩
  | case3 => simp [commentText, spaceHyphens, Text.dropEndWhile]

theorem head?_commentText {t : Text} (ne : commentText t ≠ []) :
    (commentText t).head? = t.head? := by
  obtain ⟨c, rest, e⟩ := List.exists_cons_of_ne_nil ne
  have first : c ∈ (spaceHyphens t).head? := Text.head?_dropEndWhile (by rw [← commentText, e]; rfl)
  rw [head?_spaceHyphens] at first
  rw [e]
  exact first.symm

theorem commentText_ne_nil_and_head?_iff {t : Text} :
    commentText t ≠ [] ∧ t.head? = some '-' ↔ ∃ d after, t = '-' :: d :: after := by
  rw [Ne, commentText_eq_nil_iff]
  constructor
  · rintro ⟨long, e⟩
    obtain ⟨tail, rfl⟩ := List.head?_eq_some_iff.1 e
    cases tail with
    | nil => exact absurd (Or.inr rfl) long
    | cons d after => exact ⟨d, after, rfl⟩
  · rintro ⟨d, after, rfl⟩
    simp

theorem pair_isInfix_commentText (t : Text) : "--".toList <:+: commentText t ↔ InnerRow t := by
  -- Pairs are taken apart from the left, so a third hyphen makes a new pair with the second. That
  -- pair stays if another character follows, and is dropped with the hyphens at the end of the
  -- text.
  fun_induction spaceHyphens t with
  | case1 rest ih =>
    rw [commentText_pair, pair_isInfix_cons, pair_isInfix_cons, innerRow_pair, ← ih,
      ← commentText_ne_nil_and_head?_iff]
    by_cases empty : commentText rest = []
    · simp [empty]
    · rw [if_neg empty, pair_isInfix_cons, head?_commentText empty]
      simp [empty]
  | case2 c rest apart ih =>
    have next := apart_of_not_pair apart
    have first : ¬ ∃ d after, c :: rest = '-' :: '-' :: '-' :: d :: after := by
      rintro ⟨d, after, e⟩
      cases e
      exact next ⟨rfl, rfl⟩
    rw [commentText_cons next, innerRow_cons, or_iff_right first, ← ih]
    split
    · next empty => rw [empty.1]
    · rw [pair_isInfix_cons, or_iff_right]
      rintro ⟨hyphen, e⟩
      have ne : commentText rest ≠ [] := by
        rintro none
        simp [none] at e
      rw [head?_commentText ne] at e
      exact next ⟨hyphen, e⟩
  | case3 => exact iff_of_false (by decide) not_innerRow_nil

theorem getLast?_commentText (t : Text) : (commentText t).getLast? ≠ some '-' := by
  intro last
  have other : decide ('-' = '-') = false := Text.getLast?_dropEndWhile last
  simp at other

theorem isCommentText_commentBody_iff {t : Text} :
    isCommentText (commentBody t) = true ↔ ¬ InnerRow t := by
  have last : (commentBody t).getLast? = some ' ' := by
    rw [commentBody, ← List.cons_append, List.getLast?_concat]
  have whole : "--".toList <:+: commentBody t ↔ "--".toList <:+: commentText t := by
    rw [commentBody, pair_isInfix_cons]
    constructor
    · rintro (⟨e, _⟩ | pair)
      · exact absurd e (by decide)
      · exact (hyphens_isInfix_append (by simp) (Or.inr (by decide)) pair).elim id
          fun right => absurd right (by decide)
    · intro pair
      exact Or.inr (pair.trans (List.prefix_append _ _).isInfix)
  rw [isCommentText, Bool.and_eq_true, Bool.not_eq_true', ← Bool.not_eq_true,
    Text.contains_iff_isInfix, whole, pair_isInfix_commentText, last]
  exact and_iff_left (by decide)

theorem plain_comment {scope : Scope} {t : Text} (h : RowFree t) (text : XmlText t) :
    (Markup.comment t).Plain scope :=
  ⟨isCommentText_commentBody_iff.mpr h.not_innerRow, text⟩

/-- Comment text never ends in a hyphen, but it holds a pair of hyphens where three of them stood in
a row before another character. On all other texts the written line is one comment. -/
theorem commentText_has_pair_iff (t : Text) :
    (commentText t).getLast? ≠ some '-' ∧
    ("--".toList <:+: commentText t ↔
      ∃ before c after, t = before ++ "---".toList ++ c :: after) ∧
    ∀ indent depth, ∃ body,
      Step.text indent depth (.comment t) =
        List.replicate (depth * indent) ' ' ++ ("<!--" ++ body ++ "-->" ++ "\n") ∧
      (isCommentText body = true ↔
        ¬ ∃ before c after, t = before ++ "---".toList ++ c :: after) := by
  refine ⟨getLast?_commentText t, pair_isInfix_commentText t, ?_⟩
  intro indent depth
  refine ⟨commentBody t, ?_, isCommentText_commentBody_iff⟩
  simp [Step.text, lineText, commentBody]

/-- Three hyphens at the start of a name leave a pair of hyphens in the comment. -/
theorem commentText_leaves_pair :
    "--".toList <:+: commentText "---a" ∧ isCommentText (commentBody "---a") = false := by
  decide

end FieldMap.Markup
