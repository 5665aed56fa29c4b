import FieldMap.Markup.Escape

/-!
Escaping is lossless and closed. Text is escaped in passes, and the later passes write ampersands
after the ampersands of the text have been escaped. No pass changes what another one has written, so
together they write each character on its own, and one reading from the left takes the references
back, also where the text itself has something like a reference in it.
-/

namespace FieldMap.Markup

abbrev References := List (Char × Text)

def markupReferences : References :=
  [('<', "&lt;"), ('>', "&gt;"), ('&', "&amp;")]

def breakReferences : References :=
  [('\n', "&#10;"), ('\r', "&#13;"), ('\t', "&#9;")]

def quoteReferences : References :=
  [('"', "&quot;")]

def textReferences : References :=
  markupReferences ++ breakReferences

def allReferences : References :=
  textReferences ++ quoteReferences

def refer (table : References) (t : Text) : Text :=
  t.flatMap fun c => (table.lookup c).getD [c]

/-- One pass of escaping. A text without characters of the table is passed on as it is. -/
def pass (table : References) (t : Text) : Text :=
  if t.any fun c => (table.lookup c).isSome then refer table t else t

/-- The reference at the start of a text: its character, and the text after it. -/
def reference? (t : Text) : Option (Char × Text) :=
  allReferences.findSome? fun e => (Text.after? e.2 t).map (e.1, ·)

theorem exists_body {e : Char × Text} (h : e ∈ allReferences) :
    ∃ body, e.2 = '&' :: body ∧ '&' ∉ body := by
  have all : (allReferences.all fun e => e.2.head? == some '&' && !e.2.tail.contains '&') = true := by
    decide
  have own := List.all_eq_true.mp all e h
  simp only [Bool.and_eq_true, beq_iff_eq, Bool.not_eq_true', List.contains_eq_mem,
    decide_eq_false_iff_not] at own
  obtain ⟨body, same⟩ := List.head?_eq_some_iff.mp own.1
  rw [same, List.tail_cons] at own
  exact ⟨body, same, own.2⟩

theorem length_reference?_lt {t rest : Text} {c : Char} (h : reference? t = some (c, rest)) :
    rest.length < t.length := by
  obtain ⟨e, listed, found⟩ := List.exists_of_findSome?_eq_some h
  obtain ⟨rest', after, same⟩ := Option.map_eq_some_iff.mp found
  cases same
  obtain ⟨body, written, -⟩ := exists_body listed
  rw [Text.eq_append_of_after? after, written, List.length_append, List.length_cons]
  omega

/-- The text with the characters that its references stand for, read once from the left. -/
def unescape : Text → Text
  | [] => []
  | c :: t =>
    match _h : reference? (c :: t) with
    | some (d, rest) => d :: unescape rest
    | none => c :: unescape t
termination_by t => t.length
decreasing_by
  · exact length_reference?_lt _h
  · exact Nat.lt_succ_self _

theorem unescape_of_some {t rest : Text} {c : Char} (h : reference? t = some (c, rest)) :
    unescape t = c :: unescape rest := by
  cases t with
  | nil =>
    have shorter := length_reference?_lt h
    simp at shorter
  | cons d t =>
    rw [unescape]
    split
    · next e =>
      rw [h] at e
      cases e
      rfl
    · next e =>
      rw [h] at e
      cases e

theorem unescape_of_none {t : Text} {c : Char} (h : reference? (c :: t) = none) :
    unescape (c :: t) = c :: unescape t := by
  rw [unescape]
  split
  · next e =>
    rw [h] at e
    cases e
  · rfl

theorem reference?_append {e : Char × Text} (h : e ∈ allReferences) (t : Text) :
    reference? (e.2 ++ t) = some (e.1, t) := by
  -- No reference is the beginning of another, so the one that stands there is found.
  simp only [allReferences, textReferences, markupReferences, breakReferences, quoteReferences,
    List.cons_append, List.nil_append, List.mem_cons, List.not_mem_nil, or_false] at h
  rcases h with rfl | rfl | rfl | rfl | rfl | rfl | rfl <;> rfl

theorem reference?_of_ne {c : Char} (h : c ≠ '&') (t : Text) : reference? (c :: t) = none := by
  refine List.findSome?_eq_none_iff.mpr ?_
  intro e listed
  obtain ⟨body, written, -⟩ := exists_body listed
  rw [written, Text.after?, if_neg (Ne.symm h)]
  rfl

theorem mem_of_lookup {table : References} {c : Char} {written : Text}
    (h : table.lookup c = some written) : (c, written) ∈ table := by
  obtain ⟨l, r, split, -⟩ := List.lookup_eq_some_iff.mp h
  simp [split]

section refer

variable {table : References}

@[simp] theorem refer_nil : refer table [] = [] := rfl

theorem refer_cons (c : Char) (t : Text) :
    refer table (c :: t) = (table.lookup c).getD [c] ++ refer table t :=
  List.flatMap_cons

theorem refer_append (t u : Text) : refer table (t ++ u) = refer table t ++ refer table u :=
  List.flatMap_append

theorem refer_of_none {t : Text} (h : ∀ c ∈ t, table.lookup c = none) : refer table t = t := by
  induction t with
  | nil => rfl
  | cons c t ih =>
    have first := h c List.mem_cons_self
    have others := ih fun d hd => h d (List.mem_cons_of_mem c hd)
    rw [refer_cons, first, others]
    rfl

theorem pass_eq_refer (t : Text) : pass table t = refer table t := by
  unfold pass
  split
  · rfl
  · next absent =>
    refine (refer_of_none fun c hc => ?_).symm
    simp only [List.any_eq_true, not_exists, not_and, Bool.not_eq_true, Option.isSome_eq_false_iff,
      Option.isNone_iff_eq_none] at absent
    exact absent c hc

theorem refer_refer {other : References} (apart : ∀ e ∈ table, ∀ x ∈ e.2, other.lookup x = none)
    (t : Text) : refer other (refer table t) = refer (table ++ other) t := by
  induction t with
  | nil => rfl
  | cons c t ih =>
    rw [refer_cons, refer_append, ih, refer_cons, List.lookup_append]
    congr 1
    cases found : table.lookup c with
    | none => simp [refer_cons]
    | some written => exact refer_of_none (apart _ (mem_of_lookup found))

end refer

/-- Escaped text with the text it was made from: it has none of some characters, and all of its
ampersands begin references. -/
structure Escapes (absent : List Char) (t out : Text) : Prop where
  unescaped : unescape out = t
  closed : ∀ c ∈ absent, c ∉ out
  referenced : ∀ before after, out = before ++ '&' :: after →
    ∃ e ∈ allReferences, e.2 <+: '&' :: after

section Escapes

variable {table : References} (known : ∀ e ∈ table, e ∈ allReferences)
  (ampersand : (table.lookup '&').isSome = true)

include known ampersand

theorem written_cases (c : Char) :
    (∃ e ∈ allReferences, e.1 = c ∧ (table.lookup c).getD [c] = e.2) ∨
      c ≠ '&' ∧ table.lookup c = none := by
  cases found : table.lookup c with
  | some written => exact Or.inl ⟨_, known _ (mem_of_lookup found), rfl, rfl⟩
  | none =>
    refine Or.inr ⟨?_, rfl⟩
    rintro rfl
    rw [found] at ampersand
    cases ampersand

theorem unescape_refer (t : Text) : unescape (refer table t) = t := by
  induction t with
  | nil => rw [refer_nil, unescape]
  | cons c t ih =>
    rw [refer_cons]
    rcases written_cases known ampersand c with ⟨e, listed, own, written⟩ | ⟨other, none⟩
    · rw [written, unescape_of_some (reference?_append listed _), own, ih]
    · rw [none, Option.getD_none, List.singleton_append, unescape_of_none (reference?_of_ne other _), ih]

theorem referenced_refer {t before after : Text} (h : refer table t = before ++ '&' :: after) :
    ∃ e ∈ allReferences, e.2 <+: '&' :: after := by
  induction t generalizing before with
  | nil => simp at h
  | cons c t ih =>
    rw [refer_cons] at h
    rcases List.append_eq_append_iff.mp h with ⟨skipped, -, later⟩ | ⟨part, written, rest⟩
    · exact ih later
    · cases part with
      | nil =>
        have start : refer table t = [] ++ '&' :: after := rest.symm
        exact ih start
      | cons d part =>
        -- The ampersand stands in what is written for the first character, so it is its first.
        obtain ⟨rfl, follows⟩ := List.cons.inj rest
        rcases written_cases known ampersand c with ⟨e, listed, -, own⟩ | ⟨other, none⟩
        · obtain ⟨body, begins, single⟩ := exists_body listed
          have first : before = [] := by
            cases before with
            | nil => rfl
            | cons b before =>
              rw [own, begins, List.cons_append] at written
              obtain ⟨-, inside⟩ := List.cons.inj written
              exact absurd (inside ▸ by simp) single
          refine ⟨e, listed, ?_⟩
          rw [← own, written, first, follows]
          exact ⟨_, rfl⟩
        · rw [none, Option.getD_none] at written
          have same : '&' ∈ [c] := written ▸ by simp
          exact absurd (List.mem_singleton.mp same).symm other

theorem mem_refer {x : Char} {t : Text} (h : x ∈ refer table t) :
    x ∈ t ∨ ∃ e ∈ allReferences, x ∈ e.2 := by
  obtain ⟨c, inside, written⟩ := List.mem_flatMap.mp h
  rcases written_cases known ampersand c with ⟨e, listed, -, own⟩ | ⟨-, none⟩
  · exact Or.inr ⟨e, listed, own ▸ written⟩
  · rw [none, Option.getD_none, List.mem_singleton] at written
    exact Or.inl (written ▸ inside)

theorem closed_refer {c : Char} (covered : (table.lookup c).isSome = true)
    (foreign : ∀ e ∈ allReferences, c ∉ e.2) (t : Text) : c ∉ refer table t := by
  intro inside
  obtain ⟨d, -, written⟩ := List.mem_flatMap.mp inside
  rcases written_cases known ampersand d with ⟨e, listed, -, own⟩ | ⟨-, none⟩
  · exact foreign e listed (own ▸ written)
  · rw [none, Option.getD_none, List.mem_singleton] at written
    rw [written, none] at covered
    cases covered

theorem escapes_refer {absent : List Char}
    (replaced : (absent.all fun c => (table.lookup c).isSome) = true)
    (foreign : (absent.all fun c => allReferences.all fun e => c ∉ e.2) = true) (t : Text) :
    Escapes absent t (refer table t) where
  unescaped := unescape_refer known ampersand t
  closed c hc := by
    refine closed_refer known ampersand (List.all_eq_true.mp replaced c hc) ?_ t
    intro e listed
    simpa using List.all_eq_true.mp (List.all_eq_true.mp foreign c hc) e listed
  referenced _ _ := referenced_refer known ampersand

end Escapes

theorem lookup_textReferences (c : Char) :
    (textReferences.lookup c).getD [c] = escapeTextChar c := by
  unfold escapeTextChar
  split
  iterate 6 rfl
  have none : textReferences.lookup c = none := by
    rw [List.lookup_eq_none_iff]
    simp_all [textReferences, markupReferences, breakReferences]
  rw [none]
  rfl

theorem lookup_allReferences (c : Char) :
    (allReferences.lookup c).getD [c] = escapeAttrChar c := by
  unfold escapeAttrChar
  split
  · next quote =>
    subst quote
    rfl
  · next quote =>
    have none : quoteReferences.lookup c = none := by
      rw [List.lookup_eq_none_iff]
      simp [quoteReferences, quote]
    rw [allReferences, List.lookup_append, none, Option.or_none, lookup_textReferences]

theorem escapeText_eq_refer (t : Text) : escapeText t = refer textReferences t := by
  rw [escapeText, refer, funext lookup_textReferences]

theorem escapeAttr_eq_refer (t : Text) : escapeAttr t = refer allReferences t := by
  rw [escapeAttr, refer, funext lookup_allReferences]

theorem mem_allReferences_of_text : ∀ e ∈ textReferences, e ∈ allReferences :=
  fun _ => List.mem_append_left _

theorem escapes_escapeText (t : Text) : Escapes ['<', '>', '\n', '\r', '\t'] t (escapeText t) := by
  rw [escapeText_eq_refer]
  exact escapes_refer mem_allReferences_of_text (by decide) (by decide) (by decide) t

theorem escapes_escapeAttr (t : Text) :
    Escapes ['<', '>', '\n', '\r', '\t', '"'] t (escapeAttr t) := by
  rw [escapeAttr_eq_refer]
  exact escapes_refer (fun e listed => listed) (by decide) (by decide) (by decide) t

theorem lookup_of_mem_reference (other : References)
    (h : (allReferences.all fun e => e.2.all fun x => (other.lookup x).isNone) = true) :
    ∀ e ∈ allReferences, ∀ x ∈ e.2, other.lookup x = none := by
  intro e he x hx
  exact Option.isNone_iff_eq_none.mp (List.all_eq_true.mp (List.all_eq_true.mp h e he) x hx)

theorem escapeText_eq_passes (t : Text) :
    escapeText t = pass breakReferences (pass markupReferences t) := by
  have apart := lookup_of_mem_reference breakReferences (by decide)
  rw [pass_eq_refer, pass_eq_refer, escapeText_eq_refer, refer_refer, textReferences]
  intro e listed
  exact apart e (mem_allReferences_of_text e (List.mem_append_left _ listed))

theorem escapeAttr_eq_pass (t : Text) : escapeAttr t = pass quoteReferences (escapeText t) := by
  have apart := lookup_of_mem_reference quoteReferences (by decide)
  rw [pass_eq_refer, escapeText_eq_refer, escapeAttr_eq_refer, refer_refer,
    allReferences]
  exact fun e listed => apart e (mem_allReferences_of_text e listed)

/-- Escaped text and escaped attribute values, made in passes, are read back as the text that was
escaped. They have no angle bracket, line break or tab, attribute values no quotation mark, and an
ampersand only where a reference begins. -/
theorem escaping_is_lossless_and_closed (t : Text) :
    (escapeText t = pass breakReferences (pass markupReferences t) ∧
      Escapes ['<', '>', '\n', '\r', '\t'] t (escapeText t)) ∧
    escapeAttr t = pass quoteReferences (escapeText t) ∧
      Escapes ['<', '>', '\n', '\r', '\t', '"'] t (escapeAttr t) :=
  ⟨⟨escapeText_eq_passes t, escapes_escapeText t⟩, escapeAttr_eq_pass t, escapes_escapeAttr t⟩

def noteText : Text := "&lt;\t\""

theorem noteText_escaped :
    escapeAttr noteText = "&amp;lt;&#9;".toList ++ '&' :: "quot;".toList ∧
    unescape (escapeText noteText) = noteText ∧ unescape (escapeAttr noteText) = noteText ∧
    '\t' ∉ escapeText noteText ∧ '"' ∉ escapeAttr noteText ∧
    ∃ e ∈ allReferences, e.2 <+: '&' :: "quot;".toList := by
  obtain ⟨⟨-, asText⟩, -, asValue⟩ := escaping_is_lossless_and_closed noteText
  have written : escapeAttr noteText = "&amp;lt;&#9;".toList ++ '&' :: "quot;".toList := by decide
  exact ⟨written, asText.unescaped, asValue.unescaped, asText.closed _ (by decide),
    asValue.closed _ (by decide), asValue.referenced _ _ written⟩

end FieldMap.Markup
