import FieldMap.Proofs.EscapedText
import FieldMap.Proofs.Pieces
import FieldMap.Xml.Document

/-!
Escaped text read back. Resolving the references of escaped text, as a reader of the document does,
takes them back, and so gives the text that was escaped, in character data and in attribute values
alike. Escaped text holds none of the characters that would end it early.
-/

namespace FieldMap.Xml

theorem resolve?_of_dropWhile_nil {plain : Text → Text} {t : Text}
    (h : t.dropWhile (· ≠ '&') = []) : resolve? plain t = some (plain t) := by
  rw [resolve?]
  split
  · rfl
  · next e =>
    rw [h] at e
    cases e

theorem resolve?_of_dropWhile_cons {plain : Text → Text} {t after : Text} {a : Char}
    (h : t.dropWhile (· ≠ '&') = a :: after) :
    resolve? plain t =
      match after.dropWhile (· ≠ ';') with
      | [] => none
      | _ :: rest =>
        match entity? (after.takeWhile (· ≠ ';')), resolve? plain rest with
        | some c, some last => some (plain (t.takeWhile (· ≠ '&')) ++ c :: last)
        | _, _ => none := by
  rw [resolve?]
  split
  · next e =>
    rw [h] at e
    cases e
  · next e =>
    rw [h] at e
    cases e
    split
    · next e => exact e ▸ rfl
    · next e => exact e ▸ rfl

theorem resolve?_cons {plain : Text → Text} {c d : Char} (hc : c ≠ '&')
    (hd : ∀ t, plain (c :: t) = d :: plain t) (t : Text) :
    resolve? plain (c :: t) = (resolve? plain t).map (d :: ·) := by
  have skip : (c :: t).dropWhile (· ≠ '&') = t.dropWhile (· ≠ '&') := by simp [hc]
  have keep : (c :: t).takeWhile (· ≠ '&') = c :: t.takeWhile (· ≠ '&') := by simp [hc]
  cases h : t.dropWhile (· ≠ '&') with
  | nil =>
    rw [resolve?_of_dropWhile_nil h, resolve?_of_dropWhile_nil (skip.trans h), hd]
    rfl
  | cons a after =>
    rw [resolve?_of_dropWhile_cons h, resolve?_of_dropWhile_cons (skip.trans h), keep, hd]
    split
    · rfl
    · split <;> rfl

theorem resolve?_reference {plain : Text → Text} (empty : plain [] = []) {name : Text} {c : Char}
    (closed : ∀ x ∈ name, x ≠ ';') (known : entity? name = some c) (t : Text) :
    resolve? plain ('&' :: (name ++ ';' :: t)) = (resolve? plain t).map (c :: ·) := by
  have inside : ∀ x ∈ name, decide (x ≠ ';') = true := fun x hx => decide_eq_true (closed x hx)
  have taken : (name ++ ';' :: t).takeWhile (· ≠ ';') = name := by
    rw [List.takeWhile_append_of_pos inside]
    simp
  have left : (name ++ ';' :: t).dropWhile (· ≠ ';') = ';' :: t := by
    rw [List.dropWhile_append_of_pos inside]
    simp
  have start : ('&' :: (name ++ ';' :: t)).dropWhile (· ≠ '&') = '&' :: (name ++ ';' :: t) := by
    simp
  rw [resolve?_of_dropWhile_cons start, left, taken, known]
  have before : ('&' :: (name ++ ';' :: t)).takeWhile (· ≠ '&') = [] := by simp
  simp only [before, empty, List.nil_append]
  cases resolve? plain t <;> rfl

theorem plainText_cons {c : Char} (h : c ≠ '\r') (t : Text) :
    plainText (c :: t) = c :: plainText t := by
  rw [plainText]
  · intro rest e
    exact absurd e h
  · exact h

theorem plainValue_cons {c : Char} (feed : c ≠ '\n') (carriage : c ≠ '\r') (tab : c ≠ '\t')
    (t : Text) : plainValue (c :: t) = c :: plainValue t := by
  rw [plainValue]
  · by_cases blank : c = ' ' <;> simp [isSpace, blank, feed, carriage, tab]
  · intro rest e
    exact absurd e carriage

end FieldMap.Xml

namespace FieldMap.Markup

open Xml

theorem exists_entity {e : Char × Text} (h : e ∈ allReferences) :
    ∃ name, e.2 = '&' :: (name ++ [';']) ∧ (∀ x ∈ name, x ≠ ';') ∧ entity? name = some e.1 := by
  have all : (allReferences.all fun e => decide (e.2 = '&' :: (e.2.tail.dropLast ++ [';'])) &&
      e.2.tail.dropLast.all (· ≠ ';') && entity? e.2.tail.dropLast = some e.1) = true := by
    decide
  have own := List.all_eq_true.mp all e h
  simp only [Bool.and_eq_true, decide_eq_true_eq, List.all_eq_true] at own
  exact ⟨_, own.1.1, own.1.2, own.2⟩

/-- The references of escaped text are resolved as they are taken back, if the reading of what
stands between them changes nothing. -/
theorem resolve?_eq_unescape {plain : Text → Text} (empty : plain [] = []) {t : Text}
    (referenced : ∀ before after, t = before ++ '&' :: after →
      ∃ e ∈ allReferences, e.2 <+: '&' :: after)
    (kept : ∀ c ∈ t, c ≠ '&' → ∀ u, plain (c :: u) = c :: plain u) :
    resolve? plain t = some (unescape t) := by
  -- The induction is on the length, since a reference takes several characters at once.
  induction size : t.length using Nat.strong_induction_on generalizing t with
  | _ n ih =>
    have shorter {front rest : Text} (split : t = front ++ rest) (taken : front ≠ []) :
        resolve? plain rest = some (unescape rest) := by
      refine ih rest.length ?_ ?_ ?_ rfl
      · have := List.length_pos_iff.mpr taken
        rw [← size, split, List.length_append]
        omega
      · intro before after later
        exact referenced (front ++ before) after (by rw [split, later, List.append_assoc])
      · intro c hc
        exact kept c (split ▸ List.mem_append_right front hc)
    cases t with
    | nil => rw [resolve?_of_dropWhile_nil rfl, empty, unescape]
    | cons c t =>
      by_cases ampersand : c = '&'
      · subst ampersand
        obtain ⟨e, listed, rest, split⟩ := referenced [] t rfl
        obtain ⟨name, written, closed, known⟩ := exists_entity listed
        have later := shorter split.symm (by simp [written])
        rw [← split, unescape_of_some (reference?_append listed rest), written, List.cons_append,
          List.append_assoc, List.singleton_append, resolve?_reference empty closed known, later]
        rfl
      · have split : c :: t = [c] ++ t := rfl
        have later := shorter split (List.cons_ne_nil c [])
        rw [unescape_of_none (reference?_of_ne ampersand t),
          resolve?_cons ampersand (kept c List.mem_cons_self ampersand), later]
        rfl

theorem resolve?_escapeText (t : Text) : resolve? plainText (escapeText t) = some t := by
  have escapes := escapes_escapeText t
  rw [resolve?_eq_unescape rfl escapes.referenced, escapes.unescaped]
  intro c hc _
  exact plainText_cons fun same => escapes.closed '\r' (by decide) (same ▸ hc)

theorem resolve?_escapeAttr (t : Text) : resolve? plainValue (escapeAttr t) = some t := by
  have escapes := escapes_escapeAttr t
  rw [resolve?_eq_unescape rfl escapes.referenced, escapes.unescaped]
  intro c hc _
  have other (d : Char) (h : d ∈ ['<', '>', '\n', '\r', '\t', '"']) : c ≠ d :=
    fun same => escapes.closed d h (same ▸ hc)
  exact plainValue_cons (other '\n' (by decide)) (other '\r' (by decide)) (other '\t' (by decide))

theorem isXmlChar_of_reference {e : Char × Text} (h : e ∈ allReferences) :
    isXmlChar e.1 = true ∧ ∀ x ∈ e.2, isXmlChar x = true := by
  have all : (allReferences.all fun e => isXmlChar e.1 && e.2.all isXmlChar) = true := by decide
  simpa using List.all_eq_true.mp all e h

theorem mem_or_isXmlChar_of_mem_refer {table : References}
    (known : ∀ e ∈ table, e ∈ allReferences) (ampersand : (table.lookup '&').isSome = true) {x : Char}
    {t : Text} (h : x ∈ refer table t) : x ∈ t ∨ isXmlChar x = true := by
  rcases mem_refer known ampersand h with own | ⟨e, listed, inside⟩
  · exact Or.inl own
  · exact Or.inr ((isXmlChar_of_reference listed).2 x inside)

theorem escapeAttrChar_cases (c : Char) :
    (∃ e ∈ allReferences, e.1 = c ∧ escapeAttrChar c = e.2) ∨ escapeAttrChar c = [c] := by
  rw [← lookup_allReferences]
  rcases written_cases (fun e listed => listed) (by decide) c with reference | ⟨-, none⟩
  · exact Or.inl reference
  · exact Or.inr (by rw [none, Option.getD_none])

theorem mem_escapeText {x : Char} {t : Text} (h : x ∈ escapeText t) :
    x ≠ '<' ∧ x ≠ '>' ∧ (x ∈ t ∨ isXmlChar x = true) := by
  have closed := (escapes_escapeText t).closed
  refine ⟨?_, ?_, ?_⟩
  · rintro rfl
    exact closed '<' (by decide) h
  · rintro rfl
    exact closed '>' (by decide) h
  · rw [escapeText_eq_refer] at h
    exact mem_or_isXmlChar_of_mem_refer mem_allReferences_of_text (by decide) h

/-- The characters that an attribute value only has as references. -/
def referenced : List Char :=
  ['<', '>', '"', '\t', '\n', '\r']

theorem not_referenced_of_mem_escapeAttr {x : Char} {t : Text} (h : x ∈ escapeAttr t) :
    x ∉ referenced := by
  have listed : ∀ c ∈ referenced, c ∈ ['<', '>', '\n', '\r', '\t', '"'] := by simp [referenced]
  exact fun inside => (escapes_escapeAttr t).closed x (listed x inside) h

theorem mem_escapeAttr {x : Char} {t : Text} (h : x ∈ escapeAttr t) :
    x ≠ '<' ∧ x ≠ '"' ∧ (x ∈ t ∨ isXmlChar x = true) := by
  have other := not_referenced_of_mem_escapeAttr h
  refine ⟨?_, ?_, ?_⟩
  · rintro rfl
    exact other (by decide)
  · rintro rfl
    exact other (by decide)
  · rw [escapeAttr_eq_refer] at h
    exact mem_or_isXmlChar_of_mem_refer (fun e listed => listed) (by decide) h

theorem escapeAttr_of_plain {t : Text} (h : ∀ c ∈ t, c ∉ '&' :: referenced) : escapeAttr t = t := by
  have all : (allReferences.all fun e => decide (e.1 ∈ '&' :: referenced)) = true := by decide
  rw [escapeAttr_eq_refer, refer_of_none]
  intro c hc
  rw [List.lookup_eq_none_iff]
  intro e listed
  have special := of_decide_eq_true (List.all_eq_true.mp all e listed)
  rw [bne_iff_ne]
  rintro rfl
  exact h e.1 hc special

end FieldMap.Markup
