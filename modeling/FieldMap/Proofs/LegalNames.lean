import Mathlib.Data.List.Chain
import FieldMap.Markup.Escape
import FieldMap.Xml.Name

/-!
Names made from labels against the names of XML. A label keeps its letters and numerals, which are
classes of Unicode, while XML gives ranges of code points for its names. The tables of the two are
compared range by range: a few letters and numerals lie outside the ranges of XML, and a few letters
may stand in a name but not begin it. A name made from a label is legal exactly if it has none of
them.
-/

namespace FieldMap.Ranges

def Ascending (rs : Ranges) : Prop :=
  (rs.map Prod.fst).IsChain (· ≤ ·)

instance (rs : Ranges) : Decidable (Ascending rs) :=
  inferInstanceAs (Decidable (List.IsChain _ _))

def In (n : Nat) (r : Nat × Nat) : Prop :=
  r.1 ≤ n ∧ n ≤ r.2

theorem has_iff {rs : Ranges} (asc : Ascending rs) {n : Nat} :
    has rs n = true ↔ ∃ r ∈ rs, In n r := by
  -- The search stops at the first range above the code point; those after it are higher still.
  refine ⟨exists_of_has, ?_⟩
  have ordered : rs.Pairwise fun r s => r.1 ≤ s.1 :=
    List.pairwise_map.mp (List.isChain_iff_pairwise.mp asc)
  clear asc
  rintro ⟨r, member, low, high⟩
  induction rs with
  | nil => cases member
  | cons s rs ih =>
    rw [List.pairwise_cons] at ordered
    rw [has, Bool.if_false_left, Bool.and_eq_true, Bool.or_eq_true]
    rcases List.mem_cons.mp member with rfl | later
    · simp [low, high]
    · have first := ordered.1 r later
      exact ⟨by simp; omega, Or.inr (ih ordered.2 later)⟩

def cut (s r : Nat × Nat) : Ranges :=
  (if r.1 < s.1 then [(r.1, min r.2 (s.1 - 1))] else []) ++
    if s.2 < r.2 then [(max r.1 (s.2 + 1), r.2)] else []

/-- The ranges without the code points of other ranges, which are taken away from the high end. -/
def without (rs ss : Ranges) : Ranges :=
  ss.foldr (fun s left => left.flatMap (cut s)) rs

theorem exists_mem_cut {s r : Nat × Nat} {n : Nat} :
    (∃ piece ∈ cut s r, In n piece) ↔ In n r ∧ ¬ In n s := by
  unfold cut In
  by_cases before : r.1 < s.1
  · by_cases after : s.2 < r.2
    · simp only [if_pos before, if_pos after, List.mem_append, List.mem_singleton, or_and_right,
        exists_or, exists_eq_left]
      omega
    · simp only [if_pos before, if_neg after, List.append_nil, List.mem_singleton, exists_eq_left]
      omega
  · by_cases after : s.2 < r.2
    · simp only [if_neg before, if_pos after, List.nil_append, List.mem_singleton, exists_eq_left]
      omega
    · rw [if_neg before, if_neg after]
      exact iff_of_false (by simp) (by omega)

theorem exists_mem_flatMap_cut {rs : Ranges} {s : Nat × Nat} {n : Nat} :
    (∃ r ∈ rs.flatMap (cut s), In n r) ↔ (∃ r ∈ rs, In n r) ∧ ¬ In n s := by
  constructor
  · rintro ⟨piece, member, inside⟩
    obtain ⟨r, hr, hp⟩ := List.mem_flatMap.mp member
    have both := exists_mem_cut.mp ⟨piece, hp, inside⟩
    exact ⟨⟨r, hr, both.1⟩, both.2⟩
  · rintro ⟨⟨r, hr, inside⟩, outside⟩
    obtain ⟨piece, hp, there⟩ := exists_mem_cut.mpr ⟨inside, outside⟩
    exact ⟨piece, List.mem_flatMap.mpr ⟨r, hr, hp⟩, there⟩

theorem exists_mem_without {rs ss : Ranges} {n : Nat} :
    (∃ r ∈ without rs ss, In n r) ↔ (∃ r ∈ rs, In n r) ∧ ¬ ∃ s ∈ ss, In n s := by
  induction ss with
  | nil => simp [without]
  | cons s ss ih =>
    have step : without rs (s :: ss) = (without rs ss).flatMap (cut s) := rfl
    rw [step, exists_mem_flatMap_cut, ih, and_assoc, List.exists_mem_cons_iff, not_or,
      and_comm (a := ¬ In n s)]

theorem has_of_without {rs ss left : Ranges} (h : rs.without ss = left) (asc : Ascending rs)
    (asc' : Ascending ss) (asc'' : Ascending left) (n : Nat) :
    has left n = true ↔ has rs n = true ∧ has ss n = false := by
  rw [← Bool.not_eq_true, has_iff asc, has_iff asc', has_iff asc'', ← exists_mem_without, h]

end FieldMap.Ranges

namespace FieldMap.Xml

/-- A name: a character that may start it and characters that may go on. -/
def IsName : Text → Prop
  | [] => False
  | first :: rest => isNameStart first = true ∧ ∀ c ∈ rest, isNameChar c = true

instance : (t : Text) → Decidable (IsName t)
  | [] => inferInstanceAs (Decidable False)
  | first :: rest =>
    decidable_of_iff (isNameStart first = true ∧ rest.all isNameChar = true)
      (and_congr_right fun _ => List.all_eq_true)

end FieldMap.Xml

namespace FieldMap.Markup

/-- Letters that do not occur in names: the ordinal indicators, the micro sign and circled letters. -/
def foreignLetters : Ranges :=
  [(0xAA, 0xAA), (0xB5, 0xB5), (0xBA, 0xBA), (0x24B6, 0x24E9)]

/-- Letters that do not begin names: the foreign ones and combining letters. -/
def foreignStarts : Ranges :=
  [(0xAA, 0xAA), (0xB5, 0xB5), (0xBA, 0xBA), (0x345, 0x345), (0x363, 0x36F), (0x24B6, 0x24E9)]

/-- Numerals that do not occur in names: superscripts, fractions and enclosed numbers. -/
def foreignNumerals : Ranges :=
  [(0xB2, 0xB3), (0xB9, 0xB9), (0xBC, 0xBE), (0x2460, 0x249B), (0x24EA, 0x24FF), (0x2776, 0x2793)]

/-- A character that labels keep and names do not have. -/
def isForeign (c : Char) : Bool :=
  foreignLetters.has c.toNat || foreignNumerals.has c.toNat

section Tables

open Xml

theorem ascending_nameStartRanges : Ranges.Ascending nameStartRanges := by
  decide

theorem ascending_nameExtraRanges : Ranges.Ascending nameExtraRanges := by
  decide

theorem has_foreignStarts {c : Char} :
    foreignStarts.has c.toNat = true ↔ Text.isAlphabetic c = true ∧ isNameStart c = false := by
  have left : Text.letterRanges.without nameStartRanges = foreignStarts := by
    decide +kernel
  exact Ranges.has_of_without left (by decide +kernel) ascending_nameStartRanges (by decide) c.toNat

theorem has_foreignLetters {c : Char} :
    foreignLetters.has c.toNat = true ↔ Text.isAlphabetic c = true ∧ Xml.isNameChar c = false := by
  have left : foreignStarts.without nameExtraRanges = foreignLetters := by
    decide
  rw [Ranges.has_of_without left (by decide) ascending_nameExtraRanges (by decide), has_foreignStarts,
    and_assoc, Xml.isNameChar, Bool.or_eq_false_iff]
  rfl

theorem has_foreignNumerals {c : Char} :
    foreignNumerals.has c.toNat = true ↔ Text.isNumeral c = true ∧ Xml.isNameChar c = false := by
  have left : Text.numeralRanges.without nameStartRanges = (0x30, 0x39) :: foreignNumerals := by
    decide +kernel
  have left' : Ranges.without ((0x30, 0x39) :: foreignNumerals) nameExtraRanges = foreignNumerals := by
    decide
  rw [Ranges.has_of_without left' (by decide) ascending_nameExtraRanges (by decide),
    Ranges.has_of_without left (by decide +kernel) ascending_nameStartRanges (by decide), and_assoc,
    Xml.isNameChar, Bool.or_eq_false_iff]
  rfl

theorem isForeign_iff {c : Char} :
    isForeign c = true ↔ Path.isAlphanumeric c = true ∧ Xml.isNameChar c = false := by
  rw [isForeign, Path.isAlphanumeric, Bool.or_eq_true, Bool.or_eq_true, has_foreignLetters,
    has_foreignNumerals, or_and_right]

end Tables

def nameChar (c : Char) : Char :=
  if isNameChar c then c else '_'

theorem nameChar_of_not {c : Char} (h : isNameChar c = false) : nameChar c = '_' := by
  rw [nameChar, h]
  rfl

theorem nameChar_of_isNameChar {c : Char} (h : isNameChar c = true) : nameChar c = c :=
  if_pos h

theorem isNameChar_nameChar {c : Char} : Xml.isNameChar (nameChar c) = true ↔ isForeign c = false := by
  by_cases kept : isNameChar c = true
  · rw [nameChar_of_isNameChar kept, ← Bool.not_eq_true, isForeign_iff, not_and, Bool.not_eq_false]
    refine ⟨fun legal _ => legal, fun legal => ?_⟩
    by_cases common : Path.isAlphanumeric c = true
    · exact legal common
    · have mark : c = '_' ∨ c = '-' ∨ c = '.' ∨ c = ':' := by
        simpa [isNameChar, common, or_assoc] using kept
      rcases mark with rfl | rfl | rfl | rfl <;> decide
  · rw [Bool.not_eq_true] at kept
    have other : isForeign c = false := by
      rw [← Bool.not_eq_true, isForeign_iff]
      rintro ⟨common, -⟩
      simp [isNameChar, common] at kept
    rw [nameChar_of_not kept, other]
    exact iff_of_true (by decide) rfl

theorem elementName_of_trim {label rest : Text} {c : Char} (h : Text.trim label = c :: rest) :
    elementName label =
      if Text.isAlphabetic (nameChar c) || nameChar c = '_' then (c :: rest).map nameChar
      else '_' :: (c :: rest).map nameChar := by
  unfold elementName
  rw [h]
  rfl

theorem isNameStart_nameChar {c : Char}
    (h : (Text.isAlphabetic (nameChar c) || nameChar c = '_') = true) :
    Xml.isNameStart (nameChar c) = true ↔ foreignStarts.has c.toNat = false := by
  by_cases kept : isNameChar c = true
  · rw [nameChar_of_isNameChar kept] at h ⊢
    rw [← Bool.not_eq_true, has_foreignStarts, not_and, Bool.not_eq_false]
    refine ⟨fun legal _ => legal, fun legal => ?_⟩
    rcases Bool.or_eq_true _ _ |>.mp h with letter | mark
    · exact legal letter
    · obtain rfl : c = '_' := by simpa using mark
      decide
  · rw [Bool.not_eq_true] at kept
    have other : foreignStarts.has c.toNat = false := by
      rw [← Bool.not_eq_true, has_foreignStarts]
      rintro ⟨letter, -⟩
      simp [isNameChar, Path.isAlphanumeric, letter] at kept
    rw [nameChar_of_not kept, other]
    exact iff_of_true (by decide) rfl

/-- The name made from a label is a name of XML exactly if the label, trimmed, has no letter or numeral
that is foreign to names, and none at its start that only goes on. -/
theorem isName_elementName_iff (label : Text) :
    Xml.IsName (elementName label) ↔
      (∀ c ∈ Text.trim label, isForeign c = false) ∧
        ∀ c ∈ (Text.trim label).head?, foreignStarts.has c.toNat = false := by
  cases e : Text.trim label with
  | nil =>
    have name : elementName label = ['_'] := by
      unfold elementName
      rw [e]
      rfl
    rw [name]
    exact iff_of_true (by decide) (by simp)
  | cons c rest =>
    have legal (t : Text) : (∀ d ∈ t.map nameChar, Xml.isNameChar d = true) ↔
        ∀ d ∈ t, isForeign d = false := by
      simp only [List.forall_mem_map, isNameChar_nameChar]
    rw [elementName_of_trim e, List.head?_cons]
    simp only [Option.mem_some_iff, forall_eq']
    split
    · next starts =>
      rw [List.map_cons, Xml.IsName, legal, isNameStart_nameChar starts, List.forall_mem_cons]
      constructor
      · rintro ⟨start, others⟩
        refine ⟨⟨?_, others⟩, start⟩
        rw [← isNameChar_nameChar, Xml.isNameChar, Bool.or_eq_true]
        exact Or.inl ((isNameStart_nameChar starts).mpr start)
      · rintro ⟨⟨-, others⟩, start⟩
        exact ⟨start, others⟩
    · next other =>
      have start : foreignStarts.has c.toNat = false := by
        rw [← Bool.not_eq_true, has_foreignStarts]
        rintro ⟨letter, -⟩
        have kept : isNameChar c = true := by simp [isNameChar, Path.isAlphanumeric, letter]
        simp [nameChar_of_isNameChar kept, letter] at other
      rw [Xml.IsName, legal, and_iff_left start]
      exact and_iff_right (by decide)

/-- The micro sign, a fraction in a name and a combining letter at its start. -/
theorem elementName_illegal :
    ¬ Xml.IsName (elementName "µ") ∧ ¬ Xml.IsName (elementName "Rate½") ∧
      ¬ Xml.IsName (elementName "\u0345a") := by
  decide +kernel

end FieldMap.Markup
