import FieldMap.Proofs.References
import FieldMap.Path.Normal
import FieldMap.Path.Position
import FieldMap.Path.Relative
import FieldMap.Path.Source
import FieldMap.Xml.Name

/-!
Text made of the characters that may stand in an XML document. Everything that is built from such
text on the way into a stylesheet is again such text: trimmed and split text, names made from labels,
literals, and paths in normal form, seen from a context or with a position.
-/

namespace FieldMap.Xml

def XmlText (t : Text) : Prop :=
  ∀ c ∈ t, isXmlChar c = true

instance (t : Text) : Decidable (XmlText t) :=
  decidable_of_iff (t.all isXmlChar = true) List.all_eq_true

theorem XmlText.subset {t u : Text} (h : XmlText t) (s : u ⊆ t) : XmlText u :=
  fun c hc => h c (s hc)

theorem XmlText.cons {c : Char} {t : Text} (hc : isXmlChar c = true) (h : XmlText t) :
    XmlText (c :: t) :=
  List.forall_mem_cons.2 ⟨hc, h⟩

theorem XmlText.append {t u : Text} (ht : XmlText t) (hu : XmlText u) : XmlText (t ++ u) :=
  List.forall_mem_append.2 ⟨ht, hu⟩

theorem XmlText.between {before t after : Text} (h : XmlText t) (hb : XmlText before := by decide)
    (ha : XmlText after := by decide) : XmlText (before ++ t ++ after) :=
  (hb.append h).append ha

theorem XmlText.getD {t? : Option Text} {u : Text} (ht : ∀ t ∈ t?, XmlText t) (hu : XmlText u) :
    XmlText (t?.getD u) := by
  cases t? with
  | none => exact hu
  | some t => exact ht t rfl

theorem xmlText_replicate {c : Char} (h : isXmlChar c = true) (n : Nat) :
    XmlText (List.replicate n c) := by
  intro d hd
  rw [List.eq_of_mem_replicate hd]
  exact h

theorem xmlText_intercalate {sep : Text} {ts : List Text} (hs : XmlText sep) (h : ∀ t ∈ ts, XmlText t) :
    XmlText (List.intercalate sep ts) := by
  intro c hc
  rcases Text.mem_of_mem_intercalate hc with hc | ⟨t, ht, hc⟩
  · exact hs c hc
  · exact h t ht c hc

theorem XmlText.trim {t : Text} (h : XmlText t) : XmlText (Text.trim t) :=
  h.subset (Text.trim_isInfix t).subset

theorem XmlText.nonBlank? {t u : Text} (h : XmlText t) (e : Text.nonBlank? t = some u) :
    XmlText u := by
  simp only [Text.nonBlank?] at e
  split at e
  · cases e
  · cases e
    exact h.trim

theorem xmlText_ofNat (n : Nat) : XmlText (Text.ofNat n) := by
  intro c hc
  have digit := Nat.isDigit_of_mem_toDigits (by decide) (by decide) hc
  simp only [Char.isDigit, Bool.and_eq_true, decide_eq_true_eq, ge_iff_le, UInt32.le_iff_toNat_le] at digit
  have low : 48 ≤ c.toNat := digit.1
  have high : c.toNat ≤ 57 := digit.2
  rw [isXmlChar, if_neg (by omega)]
  simp
  omega

theorem exists_range_of_isNameChar {c : Char} (h : isNameChar c = true) :
    ∃ r ∈ nameStartRanges ++ nameExtraRanges, r.1 ≤ c.toNat ∧ c.toNat ≤ r.2 := by
  rcases Bool.or_eq_true _ _ |>.mp h with h | h
  · obtain ⟨r, hr, bounds⟩ := Ranges.exists_of_has h
    exact ⟨r, List.mem_append_left _ hr, bounds⟩
  · obtain ⟨r, hr, bounds⟩ := Ranges.exists_of_has h
    exact ⟨r, List.mem_append_right _ hr, bounds⟩

theorem isXmlChar_of_isNameChar {c : Char} (h : isNameChar c = true) : isXmlChar c = true := by
  have ranges : ∀ r ∈ nameStartRanges ++ nameExtraRanges,
      0x20 ≤ r.1 ∧ (r.2 < 0xFFFE ∨ 0xFFFF < r.1) := by decide
  obtain ⟨r, hr, low, high⟩ := exists_range_of_isNameChar h
  have clear := ranges r hr
  rw [isXmlChar, if_neg (by omega)]
  simp
  omega

end FieldMap.Xml

namespace FieldMap.Markup

open Xml

theorem xmlText_escapeText {t : Text} (h : XmlText t) : XmlText (escapeText t) :=
  fun c hc => (mem_escapeText hc).2.2.elim (h c) id

theorem xmlText_escapeAttr {t : Text} (h : XmlText t) : XmlText (escapeAttr t) :=
  fun c hc => (mem_escapeAttr hc).2.2.elim (h c) id

theorem xmlText_doubleBraces {t : Text} (h : XmlText t) : XmlText (doubleBraces t) := by
  refine h.subset fun c hc => ?_
  obtain ⟨d, hd, hcd⟩ := List.mem_flatMap.1 hc
  split at hcd <;> simp_all

theorem xmlText_stringLiteral {t : Text} (h : XmlText t) : XmlText (stringLiteral t) := by
  rw [stringLiteral]
  split
  · exact h.between
  · split
    · exact h.between
    · have pieces : ∀ p ∈ (List.splitOn '\'' t).map Text.quoted, XmlText p := by
        intro p hp
        obtain ⟨q, hq, rfl⟩ := List.mem_map.1 hp
        have piece : XmlText q := h.subset (Text.isInfix_of_mem_splitOn hq).subset
        exact piece.between
      exact (xmlText_intercalate (by decide) pieces).between

theorem xmlText_elementName {t : Text} (h : XmlText t) : XmlText (elementName t) := by
  have mapped : XmlText ((Text.trim t).map fun c => if isNameChar c then c else '_') := by
    intro c hc
    obtain ⟨d, hd, rfl⟩ := List.mem_map.1 hc
    split
    · exact h.trim d hd
    · decide
  simp only [elementName]
  split
  · next c rest e =>
    rw [e] at mapped ⊢
    split
    · exact mapped
    · exact mapped.cons (by decide)
  · decide

theorem mem_spaceHyphens {c : Char} {t : Text} (h : c ∈ spaceHyphens t) : c ∈ ' ' :: t := by
  fun_induction spaceHyphens t with
  | case1 rest ih => grind
  | case2 d rest _ ih => grind
  | case3 => simp at h

theorem xmlText_commentText {t : Text} (h : XmlText t) : XmlText (commentText t) := by
  have spaced : XmlText (spaceHyphens t) :=
    (h.cons (show isXmlChar ' ' = true by decide)).subset fun c hc => mem_spaceHyphens hc
  exact spaced.subset (Text.dropEndWhile_isPrefix _ _).subset

end FieldMap.Markup

namespace FieldMap.Path

open Xml

theorem append_of_closing? {t part rest : Text} {h : rest.length < t.length}
    (e : closing? t = some ⟨(part, rest), h⟩) : part ++ rest = t := by
  fun_induction closing? t generalizing part rest with
  | case1 | case3 | case4 | case6 => cases e
  | case2 cs =>
    cases e
    rfl
  | case5 cs inner middle _ opened _ outer last _ closed _ ih₁ ih₂ =>
    cases e
    rw [List.cons_append, List.append_assoc, ih₂ closed, ih₁ opened]
  | case7 c cs _ _ inner last _ found ih =>
    cases e
    rw [List.cons_append, ih found]

theorem subset_of_mem_onFirst {part t : Text} {pieces : List Text} (hpart : part ⊆ t)
    (h : ∀ p ∈ pieces, p ⊆ t) : ∀ p ∈ onFirst part pieces, p ⊆ t := by
  cases pieces with
  | nil => simpa [onFirst] using hpart
  | cons piece pieces =>
    rw [onFirst, List.forall_mem_cons]
    have first := h piece List.mem_cons_self
    exact ⟨List.append_subset.2 ⟨hpart, first⟩, fun p hp => h p (List.mem_cons_of_mem _ hp)⟩

theorem subset_of_mem_pieces? {t : Text} {pieces : List Text} (h : pieces? t = some pieces) :
    ∀ p ∈ pieces, p ⊆ t := by
  fun_induction pieces? t generalizing pieces with
  | case1 =>
    cases h
    simp
  | case2 cs ih =>
    obtain ⟨rest, hrest, rfl⟩ := Option.map_eq_some_iff.1 h
    rw [List.forall_mem_cons]
    exact ⟨List.nil_subset _, fun p hp => List.subset_cons_of_subset _ (ih hrest p hp)⟩
  | case3 => cases h
  | case4 cs part rest _ closed _ _ ih =>
    obtain ⟨others, hothers, rfl⟩ := Option.map_eq_some_iff.1 h
    have whole := append_of_closing? closed
    subst whole
    refine subset_of_mem_onFirst ?_ fun p hp => ?_
    · exact List.cons_subset_cons _ (List.subset_append_left part rest)
    · exact List.subset_cons_of_subset _ (List.subset_append_of_subset_right part (ih hothers p hp))
  | case5 c cs _ _ ih =>
    obtain ⟨others, hothers, rfl⟩ := Option.map_eq_some_iff.1 h
    refine subset_of_mem_onFirst ?_ fun p hp => ?_
    · simp
    · exact List.subset_cons_of_subset _ (ih hothers p hp)

theorem subset_of_mem_steps {path step : Text} (h : step ∈ steps path) : step ⊆ path := by
  have inside : body path ⊆ path :=
    List.Subset.trans (List.dropWhile_suffix _).subset (Text.trim_isInfix path).subset
  obtain ⟨hmem, -⟩ := List.mem_filter.1 h
  refine List.Subset.trans ?_ inside
  cases split : pieces? (body path) with
  | none =>
    rw [split] at hmem
    exact (Text.isInfix_of_mem_splitOn hmem).subset
  | some pieces =>
    rw [split] at hmem
    exact subset_of_mem_pieces? split step hmem

theorem subset_of_separateDots (before : Option Char) (depth : Nat) (t : Text) :
    separateDots before depth t ⊆ '/' :: t := by
  fun_induction separateDots before depth t with
  | case1 => simp
  | case2 before depth cs ih => grind
  | case3 before depth cs _ ih => grind
  | case4 before depth c cs _ _ _ ih => grind
  | case5 before depth c cs _ _ _ ih => grind

theorem dropFileName_isSuffix (path : Text) : dropFileName path <:+ path := by
  unfold dropFileName
  split
  · exact List.suffix_refl path
  · next c rest e =>
    split
    · have tail : rest <:+ path.dropWhile (· ≠ '/') := e ▸ List.suffix_cons c rest
      exact tail.trans (List.dropWhile_suffix _)
    · exact List.suffix_refl path

theorem xmlText_normalize {raw : Text} (h : XmlText raw) : XmlText (normalize raw).path := by
  have base : XmlText (cleaned raw) :=
    ((h.trim.subset (dropFileName_isSuffix _).subset).cons (by decide)).subset
      (subset_of_separateDots none 0 _)
  rw [normalize]
  split
  · decide
  · unfold anchor
    split
    · exact (show XmlText "//" by decide)
    · split
      · exact base
      · exact (show XmlText "//" by decide).append base

theorem afterContext?_isSuffix {context path rest : List Text}
    (h : afterContext? context path = some rest) : rest <:+ path := by
  fun_induction afterContext? context path with
  | case1 =>
    cases h
    exact List.suffix_refl _
  | case2 | case4 => cases h
  | case3 c cs s ss _ ih => exact (ih h).trans (List.suffix_cons s ss)

theorem afterLastContext?_isSuffix {context path rest : List Text}
    (h : afterLastContext? context path = some rest) : rest <:+ path := by
  induction path with
  | nil => exact afterContext?_isSuffix h
  | cons s ss ih =>
    simp only [afterLastContext?] at h
    split at h
    · next found e =>
      cases h
      exact (ih e).trans (List.suffix_cons s ss)
    · exact afterContext?_isSuffix h

theorem xmlText_relativeTo {path context seen : Text} (h : XmlText path)
    (e : relativeTo path context = some seen) : XmlText seen := by
  simp only [relativeTo] at e
  split at e
  · cases e
  · obtain ⟨rest, hrest, rfl⟩ := Option.map_eq_some_iff.1 e
    have after : rest <:+ steps path := by
      split at hrest
      · exact afterContext?_isSuffix hrest
      · exact afterLastContext?_isSuffix hrest
    split
    · decide
    · refine xmlText_intercalate (by decide) fun s hs => ?_
      exact h.subset (subset_of_mem_steps (after.subset hs))

theorem xmlText_of_mem_markFirst {mark : Text} {steps : List Text} (hm : XmlText mark)
    (h : ∀ s ∈ steps, XmlText s) : ∀ s ∈ markFirst mark steps, XmlText s := by
  induction steps with
  | nil => simp [markFirst]
  | cons step rest ih =>
    rw [List.forall_mem_cons] at h
    rw [markFirst]
    split
    · exact List.forall_mem_cons.2 ⟨h.1.append hm, h.2⟩
    · exact List.forall_mem_cons.2 ⟨h.1, ih h.2⟩

theorem xmlText_withPosition {path : Text} (h : XmlText path) (position : Nat) :
    XmlText (withPosition path position) := by
  have mark : XmlText ("[" ++ Text.ofNat position ++ "]") :=
    (xmlText_ofNat position).between
  have front : XmlText (path.takeWhile (· = '/')) := h.subset (List.takeWhile_prefix _).subset
  have inner : ∀ s ∈ (steps (path.dropWhile (· = '/'))).reverse, XmlText s := by
    intro s hs
    have inside := subset_of_mem_steps (List.mem_reverse.1 hs)
    exact h.subset (List.Subset.trans inside (List.dropWhile_suffix _).subset)
  refine front.append (xmlText_intercalate (by decide) fun s hs => ?_)
  exact xmlText_of_mem_markFirst mark inner s (List.mem_reverse.1 hs)

end FieldMap.Path

namespace FieldMap.SourcePath

open Xml

theorem eq_of_lastAttribute? {t before after : Text} (h : lastAttribute? t = some (before, after)) :
    t = before ++ '/' :: '@' :: after := by
  induction t generalizing before with
  | nil => cases h
  | cons c cs ih =>
    simp only [lastAttribute?] at h
    split at h
    · next b a e =>
      cases h
      rw [List.cons_append, ← ih e]
    · split at h
      · next d rest _ =>
        split at h
        · next marks =>
          cases h
          rw [marks.1, marks.2]
          rfl
        · cases h
      · cases h

theorem parse_parts (path : Text) :
    (∃ parent name, parse path = .attribute parent name ∧ parent ⊆ path ∧ name ⊆ path) ∨
      ∃ parent name, parse path = .element parent name path := by
  unfold parse
  split
  · next parent name e =>
    have whole := eq_of_lastAttribute? e
    refine Or.inl ⟨parent, name, rfl, ?_, ?_⟩
    · rw [whole]
      exact List.subset_append_left _ _
    · rw [whole]
      exact List.subset_append_of_subset_right _
        (List.subset_cons_of_subset _ (List.subset_cons_self _ _))
  · split
    · next name _ =>
      exact Or.inl ⟨[], name, rfl, List.nil_subset _, List.subset_cons_self _ _⟩
    · exact Or.inr ⟨_, _, rfl⟩

theorem xmlText_full {path : Text} (h : XmlText path) : XmlText (parse path).full := by
  rcases parse_parts path with ⟨parent, name, e, hp, hn⟩ | ⟨parent, name, e⟩
  · rw [e]
    exact ((h.subset hp).append (by decide)).append (h.subset hn)
  · rw [e]
    exact h

theorem xmlText_valueRef {path : Text} (h : XmlText path) : XmlText (parse path).valueRef := by
  rcases parse_parts path with ⟨parent, name, e, hp, hn⟩ | ⟨parent, name, e⟩
  · rw [e]
    exact (h.subset hn).cons (by decide)
  · rw [e]
    exact h

end FieldMap.SourcePath
