import FieldMap.Proofs.LiteralValues

/-!
Attribute values as templates. A template mixes text, in which a brace is doubled, with expressions
between braces. Escaping and doubling work on different characters, so neither disturbs the other:
what a reader of the document sees in an attribute is text throughout for a fixed value, and one
expression for a variable or a path.
-/

namespace FieldMap.Markup

inductive Part where
  | character (c : Char)
  | expression (text : Text)
deriving DecidableEq

/-- The expression up to the brace that closes it, and the text after that brace. `literal` is the
quote of the string that is open, if one is: a brace in a string closes nothing. A quote that has no
partner opens no string. -/
def expression? : (literal : Option Char) → Text → Option (Text × Text)
  | _, [] => none
  | some quote, c :: rest =>
    (expression? (if c = quote then none else some quote) rest).map (Prod.map (c :: ·) id)
  | none, c :: rest =>
    if c = '\x7d' then some ([], rest)
    else if c = '\x7b' then none
    else
      (expression? (if XPath.IsQuote c ∧ c ∈ rest then some c else none) rest).map
        (Prod.map (c :: ·) id)

theorem length_expression?_lt {literal : Option Char} {t e rest : Text}
    (h : expression? literal t = some (e, rest)) : rest.length < t.length := by
  induction t generalizing literal e with
  | nil => simp [expression?] at h
  | cons c t ih =>
    have after {state : Option Char}
        (h : (expression? state t).map (Prod.map (c :: ·) id) = some (e, rest)) :
        rest.length < (c :: t).length := by
      obtain ⟨⟨inner, last⟩, read, same⟩ := Option.map_eq_some_iff.mp h
      cases same
      exact Nat.lt_succ_of_lt (ih read)
    cases literal with
    | some quote => exact after h
    | none =>
      rw [expression?] at h
      by_cases close : c = '\x7d'
      · rw [if_pos close] at h
        cases h
        simp
      · rw [if_neg close] at h
        by_cases nested : c = '\x7b'
        · rw [if_pos nested] at h
          cases h
        · rw [if_neg nested] at h
          exact after h

/-- The parts of a template. A brace that is not doubled opens an expression or is out of place. -/
def parts? : Text → Option (List Part)
  | [] => some []
  | '\x7b' :: '\x7b' :: rest => (parts? rest).map (.character '\x7b' :: ·)
  | '\x7d' :: '\x7d' :: rest => (parts? rest).map (.character '\x7d' :: ·)
  | '\x7b' :: rest =>
    match _ : expression? none rest with
    | none => none
    | some (e, after) => (parts? after).map (.expression e :: ·)
  | '\x7d' :: _ => none
  | c :: rest => (parts? rest).map (.character c :: ·)
termination_by t => t.length
decreasing_by
  · exact Nat.lt_succ_of_lt (Nat.lt_succ_self _)
  · exact Nat.lt_succ_of_lt (Nat.lt_succ_self _)
  · next h => exact Nat.lt_succ_of_lt (length_expression?_lt h)
  · exact Nat.lt_succ_self _

theorem mem_elementName {label : Text} {c : Char} (h : c ∈ elementName label) :
    isNameChar c = true := by
  have mapped : ∀ d ∈ (Text.trim label).map fun c => if isNameChar c then c else '_',
      isNameChar d = true := by
    intro d hd
    obtain ⟨e, _, rfl⟩ := List.mem_map.mp hd
    split
    · next kept => exact kept
    · decide
  simp only [elementName] at h
  split at h
  · next first rest e =>
    rw [e] at mapped h
    split at h
    · exact mapped c h
    · rcases List.mem_cons.mp h with rfl | later
      · decide
      · exact mapped c later
  · rw [List.mem_singleton.mp h]
    decide

theorem escapeAttr_elementName (label : Text) : escapeAttr (elementName label) = elementName label := by
  have names : ('&' :: referenced).all (fun d => !isNameChar d) = true := by decide
  apply escapeAttr_of_plain
  intro c hc special
  have other := List.all_eq_true.mp names c special
  rw [mem_elementName hc] at other
  cases other

theorem doubleBraces_brace {c : Char} (h : c = '\x7b' ∨ c = '\x7d') (t : Text) :
    doubleBraces (c :: t) = c :: c :: doubleBraces t := by
  rcases h with rfl | rfl <;> rfl

theorem doubleBraces_other {c : Char} (opening : c ≠ '\x7b') (closing : c ≠ '\x7d') (t : Text) :
    doubleBraces (c :: t) = c :: doubleBraces t := by
  simp [doubleBraces, opening, closing]

theorem doubleBraces_append_of_not_mem {u : Text} (opening : '\x7b' ∉ u) (closing : '\x7d' ∉ u)
    (t : Text) : doubleBraces (u ++ t) = u ++ doubleBraces t := by
  induction u with
  | nil => rfl
  | cons c u ih =>
    rw [List.mem_cons, not_or] at opening closing
    rw [List.cons_append, doubleBraces_other (Ne.symm opening.1) (Ne.symm closing.1),
      ih opening.2 closing.2]
    rfl

theorem braces_not_mem_escapeAttrChar {c : Char} (opening : c ≠ '\x7b') (closing : c ≠ '\x7d') :
    '\x7b' ∉ escapeAttrChar c ∧ '\x7d' ∉ escapeAttrChar c := by
  have references : (allReferences.all fun e => decide ('\x7b' ∉ e.2 ∧ '\x7d' ∉ e.2)) = true := by
    decide
  rcases escapeAttrChar_cases c with ⟨e, listed, -, written⟩ | same
  · rw [written]
    exact of_decide_eq_true (List.all_eq_true.mp references e listed)
  · rw [same]
    simp [Ne.symm opening, Ne.symm closing]

theorem templateLiteral_eq (t : Text) : templateLiteral t = doubleBraces (escapeAttr t) := by
  induction t with
  | nil => rfl
  | cons c t ih =>
    rw [templateLiteral] at ih ⊢
    by_cases brace : c = '\x7b' ∨ c = '\x7d'
    · have plain : escapeAttrChar c = [c] := by rcases brace with rfl | rfl <;> rfl
      have escaped (u : Text) : escapeAttr (c :: u) = c :: escapeAttr u := by
        rw [escapeAttr, List.flatMap_cons, plain]
        rfl
      rw [doubleBraces_brace brace, escaped, escaped, escaped, doubleBraces_brace brace, ih]
    · rw [not_or] at brace
      have escaped (u : Text) : escapeAttr (c :: u) = escapeAttrChar c ++ escapeAttr u :=
        List.flatMap_cons
      obtain ⟨opening, closing⟩ := braces_not_mem_escapeAttrChar brace.1 brace.2
      rw [doubleBraces_other brace.1 brace.2, escaped, escaped,
        doubleBraces_append_of_not_mem opening closing, ih]

theorem parts?_character {c : Char} (opening : c ≠ '\x7b') (closing : c ≠ '\x7d') (rest : Text) :
    parts? (c :: rest) = (parts? rest).map (.character c :: ·) := by
  rw [parts?]
  all_goals simp_all

theorem parts?_brace {c : Char} (h : c = '\x7b' ∨ c = '\x7d') (rest : Text) :
    parts? (c :: c :: rest) = (parts? rest).map (.character c :: ·) := by
  rcases h with rfl | rfl <;> rw [parts?]

theorem parts?_doubleBraces (t : Text) : parts? (doubleBraces t) = some (t.map .character) := by
  induction t with
  | nil => rw [doubleBraces, List.flatMap_nil, parts?, List.map_nil]
  | cons c t ih =>
    by_cases brace : c = '\x7b' ∨ c = '\x7d'
    · rw [doubleBraces_brace brace, parts?_brace brace, ih]
      rfl
    · rw [not_or] at brace
      rw [doubleBraces_other brace.1 brace.2, parts?_character brace.1 brace.2, ih]
      rfl

theorem expression?_closed {e : Text} (opening : '\x7b' ∉ e) (closing : '\x7d' ∉ e)
    {literal : Option Char} (partner : ∀ quote ∈ literal, quote ∈ e) :
    expression? literal (e ++ ['\x7d']) = some (e, []) := by
  -- Text without braces is read up to the brace after it, whatever quotes it has: the quote of an
  -- open string is still to come, and so closes it.
  induction e generalizing literal with
  | nil =>
    cases literal with
    | none => rfl
    | some quote => exact absurd (partner quote rfl) List.not_mem_nil
  | cons c e ih =>
    rw [List.mem_cons, not_or] at opening closing
    have step {state : Option Char} (partner : ∀ quote ∈ state, quote ∈ e) :
        (expression? state (e ++ ['\x7d'])).map (Prod.map (c :: ·) id) = some (c :: e, []) := by
      rw [ih opening.2 closing.2 partner]
      rfl
    cases literal with
    | some quote =>
      apply step
      intro other held
      by_cases ends : c = quote
      · simp [ends] at held
      · rw [if_neg ends] at held
        cases held
        exact List.mem_of_ne_of_mem (Ne.symm ends) (partner quote rfl)
    | none =>
      rw [List.cons_append, expression?, if_neg (Ne.symm closing.1), if_neg (Ne.symm opening.1)]
      apply step
      intro other held
      by_cases begins : XPath.IsQuote c ∧ c ∈ e ++ ['\x7d']
      · rw [if_pos begins] at held
        cases held
        -- The partner is not the closing brace.
        rcases List.mem_append.mp begins.2 with inside | last
        · exact inside
        · exact absurd (List.mem_singleton.mp last) (Ne.symm closing.1)
      · rw [if_neg begins] at held
        cases held

theorem parts?_opening {t e rest : Text} (single : t.head? ≠ some '\x7b')
    (h : expression? none t = some (e, rest)) :
    parts? ('\x7b' :: t) = (parts? rest).map (.expression e :: ·) := by
  rw [parts?]
  · split
    · next refused =>
      rw [h] at refused
      cases refused
    · next read =>
      rw [h] at read
      cases read
      rfl
  · rintro rest rfl
    exact single rfl

theorem parts?_expression {e : Text} (opening : '\x7b' ∉ e) (closing : '\x7d' ∉ e) :
    parts? ('\x7b' :: (e ++ ['\x7d'])) = some [.expression e] := by
  have read : expression? none (e ++ ['\x7d']) = some (e, []) :=
    expression?_closed opening closing (by simp)
  have single : (e ++ ['\x7d']).head? ≠ some '\x7b' := by
    cases e with
    | nil => decide
    | cons c e => exact fun first => opening (List.mem_of_mem_head? first)
  rw [parts?_opening single read, parts?]
  rfl

end FieldMap.Markup

namespace FieldMap.Stylesheet

open Markup (Part parts? elementName)

/-- An attribute is written as one quoted value, which a reader takes as its fixed text, as one
variable or as one expression. -/
theorem attribute_template_parts (a : Attribute) :
    (attributeMarkup a).text =
        ' ' :: (elementName a.name ++ ('=' :: '"' :: ((attributeMarkup a).written ++ ['"']))) ∧
      (∀ c ∈ (attributeMarkup a).written, c ∉ Markup.referenced) ∧
      ∃ value, (attributeMarkup a).Shows value ∧
        (∀ v, a.value = .hardcoded v →
          (attributeMarkup a).written = Markup.doubleBraces (Markup.escapeAttr v) ∧
            parts? value = some (v.map .character)) ∧
        (∀ x, a.value = .variable x → parts? value = some [.expression ('$' :: elementName x)]) ∧
        ∀ e, a.value = .xpath e → '\x7b' ∉ e → '\x7d' ∉ e →
          parts? value = some [.expression e] := by
  refine ⟨?_, fun c hc => Markup.not_referenced_of_mem_escapeAttr hc,
    attributeTemplate a.value, Markup.shows_of _ _, ?_, ?_, ?_⟩
  · rw [← List.append_nil (attributeMarkup a).text, Markup.Attr.text_append]
    rfl
  · intro v fixed
    refine ⟨?_, ?_⟩
    · rw [← Markup.templateLiteral_eq, attributeMarkup, fixed]
      rfl
    · rw [fixed]
      exact Markup.parts?_doubleBraces v
  · intro x named
    have brace {c : Char} (h : Markup.isNameChar c = false) (ne : c ≠ '$') :
        c ∉ '$' :: elementName x := by
      intro member
      rcases List.mem_cons.mp member with rfl | inside
      · exact ne rfl
      · rw [Markup.mem_elementName inside] at h
        cases h
    rw [named]
    exact Markup.parts?_expression (brace (by decide) (by decide)) (brace (by decide) (by decide))
  · intro e path opening closing
    rw [path]
    exact Markup.parts?_expression opening closing

def hintAttribute : Attribute :=
  ⟨"hint", .hardcoded "&lt;\n\x7b$unit\x7d"⟩

def unitAttribute : Attribute :=
  ⟨"unit of sale", .variable "sales unit"⟩

def smallAttribute : Attribute :=
  ⟨"small", .xpath "@size < \"'\""⟩

theorem attributes_template_parts :
    (attributeMarkup hintAttribute).text =
        " hint=\"&amp;lt;&#10;\x7b\x7b$unit\x7d\x7d\"".toList ∧
      (attributeMarkup unitAttribute).text = " unit_of_sale=\"\x7b$sales_unit\x7d\"".toList ∧
      (attributeMarkup smallAttribute).text =
        " small=\"\x7b@size &lt; &quot;'&quot;\x7d\"".toList ∧
      (∃ value, (attributeMarkup hintAttribute).Shows value ∧
        parts? value = some ("&lt;\n\x7b$unit\x7d".toList.map .character)) ∧
      (∃ value, (attributeMarkup unitAttribute).Shows value ∧
        parts? value = some [.expression "$sales_unit"]) ∧
      '\x7b' ∉ "@size < \"'\"".toList ∧ '\x7d' ∉ "@size < \"'\"".toList ∧
      ∃ value, (attributeMarkup smallAttribute).Shows value ∧
        parts? value = some [.expression "@size < \"'\""] := by
  obtain ⟨_, _, hint, shownHint, fixed, _, _⟩ := attribute_template_parts hintAttribute
  obtain ⟨_, _, unit, shownUnit, _, named, _⟩ := attribute_template_parts unitAttribute
  obtain ⟨_, _, small, shownSmall, _, _, path⟩ := attribute_template_parts smallAttribute
  exact ⟨by decide, by decide, by decide, ⟨hint, shownHint, (fixed _ rfl).2⟩,
    ⟨unit, shownUnit, named _ rfl⟩, by decide, by decide,
    ⟨small, shownSmall, path _ rfl (by decide) (by decide)⟩⟩

end FieldMap.Stylesheet
