import Mathlib.Data.List.Forall2
import FieldMap.Markup.Escape
import FieldMap.Proofs.Pieces
import FieldMap.Xml.Token

/-!
The strings that expressions stand for. An expression is read as a literal between quotes, in which a
doubled quote stands for one, or as the concatenation of at least two literals. What is written
without doubled quotes is read as it is meant, and the literal that is written for a text, with either
kind of quotes or put together from parts, is meant for that text.
-/

namespace FieldMap.XPath

open Xml

/-- A literal after its first quote `q`, with the text after its last. -/
def literalRest? (q : Char) : Text → Option (Text × Text)
  | [] => none
  | [c] => if c = q then some ([], []) else none
  | c :: d :: rest =>
    if c = q then
      if d = q then (literalRest? q rest).map fun (t, after) => (q :: t, after)
      else some ([], d :: rest)
    else (literalRest? q (d :: rest)).map fun (t, after) => (c :: t, after)

def literal? : Text → Option (Text × Text)
  | [] => none
  | c :: rest => if c = '"' ∨ c = '\'' then literalRest? c rest else none

theorem length_literalRest?_lt {q : Char} {t v rest : Text} (h : literalRest? q t = some (v, rest)) :
    rest.length < t.length := by
  fun_induction literalRest? q t generalizing v with
  | case1 => cases h
  | case2 =>
    cases h
    exact Nat.one_pos
  | case3 => cases h
  | case4 others ih =>
    obtain ⟨⟨t, after⟩, inner, e⟩ := Option.map_eq_some_iff.mp h
    cases e
    have shorter := ih inner
    simp only [List.length_cons]
    omega
  | case5 d others single =>
    cases h
    simp only [List.length_cons]
    omega
  | case6 c d others other ih =>
    obtain ⟨⟨t, after⟩, inner, e⟩ := Option.map_eq_some_iff.mp h
    cases e
    have shorter := ih inner
    rw [List.length_cons]
    omega

theorem length_literal?_lt {t v rest : Text} (h : literal? t = some (v, rest)) :
    rest.length < t.length := by
  unfold literal? at h
  split at h
  · cases h
  · split at h
    · have shorter := length_literalRest?_lt h
      rw [List.length_cons]
      omega
    · cases h

/-- Literals between commas up to a closing parenthesis, with the text after it. -/
def arguments? (t : Text) : Option (List Text × Text) :=
  match _taken : literal? (skipSpaces t) with
  | none => none
  | some (argument, rest) =>
    match _next : skipSpaces rest with
    | ',' :: more => (arguments? more).map fun (others, after) => (argument :: others, after)
    | ')' :: after => some ([argument], after)
    | _ => none
termination_by t.length
decreasing_by
  have first := length_skipSpaces_le t
  have second := length_literal?_lt _taken
  have third := length_skipSpaces_le rest
  rw [_next, List.length_cons] at third
  omega

/-- The string that an expression stands for, if it is a literal or a concatenation of literals. -/
def stringValue? (t : Text) : Option Text :=
  match Text.after? "concat(" t with
  | some inner =>
    match arguments? inner with
    | some (a :: b :: others, []) => some (a ++ b ++ others.flatten)
    | _ => none
  | none =>
    match literal? t with
    | some (value, []) => some value
    | _ => none

theorem literalRest?_of_not_mem {q : Char} {t rest : Text} (h : q ∉ t)
    (next : rest.head? ≠ some q) : literalRest? q (t ++ q :: rest) = some (t, rest) := by
  induction t with
  | nil =>
    cases rest with
    | nil => simp [literalRest?]
    | cons d rest =>
      have other : d ≠ q := by simpa using next
      simp [literalRest?, other]
  | cons c t ih =>
    rw [List.mem_cons, not_or] at h
    have later := ih h.2
    cases t with
    | nil =>
      rw [List.nil_append] at later
      simp [literalRest?, Ne.symm h.1, later]
    | cons d t =>
      rw [List.cons_append] at later
      simp [literalRest?, Ne.symm h.1, later]

def IsQuote (c : Char) : Prop :=
  c = '"' ∨ c = '\''

instance (c : Char) : Decidable (IsQuote c) :=
  inferInstanceAs (Decidable (_ ∨ _))

inductive IsLiteral : (expression value : Text) → Prop where
  | quoted {q : Char} {t : Text} (quote : IsQuote q) (free : q ∉ t) :
    IsLiteral (q :: (t ++ [q])) t

/-- The string that an expression is written for: a literal for its text, the concatenation of at
least two literals for their texts one after the other. -/
inductive Denotes : (expression value : Text) → Prop where
  | literal {e t : Text} (h : IsLiteral e t) : Denotes e t
  | concat {es ts : List Text} (each : List.Forall₂ IsLiteral es ts) (several : 2 ≤ es.length) :
    Denotes ("concat(" ++ List.intercalate ", " es ++ ")") ts.flatten

section Literal

variable {e t : Text} (h : IsLiteral e t)

include h

theorem IsLiteral.head : ∃ q rest, e = q :: rest ∧ IsQuote q := by
  cases h with
  | quoted quote free => exact ⟨_, _, rfl, quote⟩

theorem IsLiteral.literal?_append {rest : Text} (next : ∀ c ∈ rest.head?, ¬ IsQuote c) :
    literal? (e ++ rest) = some (t, rest) := by
  -- A literal ends where it is written to end, since no further quote follows.
  cases h with
  | @quoted q t quote free =>
    have other : rest.head? ≠ some q := fun same => next q same quote
    rw [List.cons_append, List.append_assoc, List.singleton_append,
      ← literalRest?_of_not_mem free other]
    exact if_pos quote

theorem IsLiteral.skipSpaces_intercalate (es : List Text) :
    skipSpaces (List.intercalate ", " (e :: es) ++ ")") = List.intercalate ", " (e :: es) ++ ")" := by
  obtain ⟨q, rest, rfl, quote⟩ := h.head
  have visible : isSpace q = false := by
    rcases quote with rfl | rfl <;> decide
  cases es with
  | nil => simp [skipSpaces, visible]
  | cons next es => simp [skipSpaces, visible, List.intercalate_cons_cons]

end Literal

section Arguments

variable {t argument rest more : Text} (first : literal? (skipSpaces t) = some (argument, rest))

include first

theorem arguments?_more (next : skipSpaces rest = ',' :: more) :
    arguments? t = (arguments? more).map fun (others, after) => (argument :: others, after) := by
  rw [arguments?]
  split
  · next e =>
    rw [first] at e
    cases e
  · next e =>
    rw [first] at e
    cases e
    split
    · next e =>
      rw [next] at e
      cases e
      rfl
    · next e =>
      rw [next] at e
      cases e
    · next other _ => exact absurd next (other more)

theorem arguments?_last (next : skipSpaces rest = ')' :: more) :
    arguments? t = some ([argument], more) := by
  rw [arguments?]
  split
  · next e =>
    rw [first] at e
    cases e
  · next e =>
    rw [first] at e
    cases e
    split
    · next e =>
      rw [next] at e
      cases e
    · next e =>
      rw [next] at e
      cases e
      rfl
    · next other => exact absurd next (other more)

end Arguments

theorem arguments?_intercalate {e v : Text} {es ts : List Text} (first : IsLiteral e v)
    (others : List.Forall₂ IsLiteral es ts) {t : Text}
    (h : skipSpaces t = List.intercalate ", " (e :: es) ++ ")") :
    arguments? t = some (v :: ts, []) := by
  induction others generalizing e v t with
  | nil =>
    have read : literal? (skipSpaces t) = some (v, [')']) := by
      rw [h, List.intercalate_singleton]
      apply first.literal?_append
      simp [IsQuote]
    exact arguments?_last read rfl
  | @cons e' v' es ts next later ih =>
    rw [List.intercalate_cons_cons, List.append_assoc, List.append_assoc] at h
    have read : literal? (skipSpaces t) =
        some (v, ',' :: ' ' :: (List.intercalate ", " (e' :: es) ++ ")")) := by
      rw [h]
      apply first.literal?_append
      simp [IsQuote]
    rw [arguments?_more read rfl, ih (t := ' ' :: _) next (next.skipSpaces_intercalate es)]
    rfl

theorem Denotes.stringValue? {e t : Text} (h : Denotes e t) : stringValue? e = some t := by
  cases h with
  | literal h =>
    have read := h.literal?_append (show ∀ c ∈ ([] : Text).head?, ¬ IsQuote c by simp)
    have simple : Text.after? "concat(" e = none := by
      obtain ⟨q, rest, rfl, quote⟩ := h.head
      have letter : 'c' ≠ q := by
        rintro rfl
        exact absurd quote (by decide)
      exact if_neg letter
    rw [List.append_nil] at read
    rw [XPath.stringValue?, simple]
    simp only [read]
  | concat each several =>
    cases each with
    | nil => simp at several
    | cons first others =>
      cases others with
      | nil => simp at several
      | cons second others =>
        have read := arguments?_intercalate first (.cons second others) (first.skipSpaces_intercalate _)
        rw [List.append_assoc, XPath.stringValue?, Text.after?_append]
        simp only [read, List.flatten_cons, List.append_assoc]

theorem intercalate_intersperse (sep mark : Text) (ts : List Text) :
    List.intercalate (sep ++ mark ++ sep) ts = List.intercalate sep (ts.intersperse mark) := by
  induction ts with
  | nil => rfl
  | cons first ts ih =>
    cases ts with
    | nil => rfl
    | cons second ts =>
      have inner : ∃ others, (second :: ts).intersperse mark = second :: others := by
        cases ts with
        | nil => exact ⟨_, rfl⟩
        | cons third ts => exact ⟨_, rfl⟩
      obtain ⟨others, e⟩ := inner
      rw [List.intercalate_cons_cons, List.intersperse_cons_cons, ih, e, List.intercalate_cons_cons,
        List.intercalate_cons_cons]
      simp only [List.append_assoc]

theorem forall₂_intersperse {α β : Type} {R : α → β → Prop} {a : α} {b : β} (between : R a b)
    {as : List α} {bs : List β} (each : List.Forall₂ R as bs) :
    List.Forall₂ R (as.intersperse a) (bs.intersperse b) := by
  induction each with
  | nil => exact .nil
  | cons first others ih =>
    cases others with
    | nil => exact .cons first .nil
    | cons second others => exact .cons first (.cons between ih)

theorem two_le_length_splitOn {sep : Char} {t : Text} (h : sep ∈ t) :
    2 ≤ (List.splitOn sep t).length := by
  by_contra short
  have joined : [sep].intercalate (t.splitOn sep) = t := List.intercalate_splitOn sep
  cases pieces : List.splitOn sep t with
  | nil =>
    rw [pieces] at joined
    subst joined
    cases h
  | cons first others =>
    cases others with
    | nil =>
      have free := Text.not_mem_of_mem_splitOn (pieces ▸ List.mem_singleton_self first)
      rw [pieces, List.intercalate_singleton] at joined
      subst joined
      exact free h
    | cons second others => simp [pieces] at short

/-- The literal written for a text is an expression for the text. A text with both kinds of quotes is
taken apart at its single quotes, which stand between double quotes. -/
theorem denotes_stringLiteral (t : Text) : Denotes (Markup.stringLiteral t) t := by
  unfold Markup.stringLiteral
  split
  · next free => exact .literal (.quoted (Or.inr rfl) free)
  · next single =>
    split
    · next free => exact .literal (.quoted (Or.inl rfl) free)
    · have mark : IsLiteral ['"', '\'', '"'] ['\''] :=
        .quoted (t := ['\'']) (Or.inl rfl) (by decide)
      have parts : List.Forall₂ IsLiteral ((List.splitOn '\'' t).map Text.quoted)
          (List.splitOn '\'' t) := by
        rw [List.forall₂_map_left_iff, List.forall₂_same]
        intro part member
        exact .quoted (Or.inr rfl) (Text.not_mem_of_mem_splitOn member)
      have several : 2 ≤ (((List.splitOn '\'' t).map Text.quoted).intersperse
          ['"', '\'', '"']).length := by
        have pieces := two_le_length_splitOn (not_not.mp single)
        rw [List.length_intersperse, List.length_map]
        omega
      have whole := Denotes.concat (forall₂_intersperse mark parts) several
      rw [← intercalate_intersperse, ← List.intercalate, List.intercalate_splitOn] at whole
      exact whole

theorem stringValue?_stringLiteral (t : Text) : stringValue? (Markup.stringLiteral t) = some t :=
  (denotes_stringLiteral t).stringValue?

end FieldMap.XPath
