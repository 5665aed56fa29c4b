import FieldMap.Proofs.BareMarkup
import FieldMap.Proofs.MarkupTokens

/-!
The elements that lines of markup form. Each line that is not a comment is read on its own, and the
tags of all lines are nested into elements. Values of attributes stay as written, so that nothing is
asked of the texts in them.
-/

namespace FieldMap.Xml

/-- An element with its attributes as written and the elements in it. -/
inductive Element where
  | mk (name : QName) (attrs : List RawAttr) (children : List Element)

namespace Element

def name : Element → QName
  | .mk name _ _ => name

def children : Element → List Element
  | .mk _ _ children => children

end Element

/-- An element that is open, with the elements before it in the one around it. -/
structure OpenElement where
  name : QName
  attrs : List RawAttr
  before : List Element

/-- The elements that are open, innermost first, and the elements in the innermost so far. -/
structure Nesting where
  stack : List OpenElement
  done : List Element

def Nesting.step? (s : Nesting) : Token → Option Nesting
  | .startTag name attrs true => some { s with done := s.done ++ [.mk name attrs []] }
  | .startTag name attrs false => some ⟨⟨name, attrs, s.done⟩ :: s.stack, []⟩
  | .endTag name =>
    match s.stack with
    | o :: stack =>
      if o.name = name then some ⟨stack, o.before ++ [.mk o.name o.attrs s.done]⟩ else none
    | [] => none
  | _ => some s

def nested? (tokens : List Token) : Option (List Element) :=
  match tokens.foldlM Nesting.step? ⟨[], []⟩ with
  | some ⟨[], elements⟩ => some elements
  | _ => none

/-- The tokens stand for these elements, whatever is around them. -/
def Nests (tokens : List Token) (elements : List Element) : Prop :=
  ∀ stack done,
    tokens.foldlM Nesting.step? ⟨stack, done⟩ = some ⟨stack, done ++ elements⟩

theorem nests_nil : Nests [] [] := by
  intro stack done
  rw [List.append_nil]
  rfl

theorem Nests.append {ks ls : List Token} {es fs : List Element} (first : Nests ks es)
    (second : Nests ls fs) : Nests (ks ++ ls) (es ++ fs) := by
  intro stack done
  rw [List.foldlM_append, first, Option.bind_eq_bind, Option.bind_some, second, List.append_assoc]

theorem nests_empty (name : QName) (attrs : List RawAttr) :
    Nests [.startTag name attrs true] [.mk name attrs []] := by
  intro stack done
  rfl

theorem nests_element {name : QName} {attrs : List RawAttr} {ks : List Token} {es : List Element}
    (h : Nests ks es) :
    Nests (.startTag name attrs false :: (ks ++ [.endTag name])) [.mk name attrs es] := by
  intro stack done
  have opened : Nesting.step? ⟨stack, done⟩ (.startTag name attrs false) =
      some ⟨⟨name, attrs, done⟩ :: stack, []⟩ := rfl
  have closed : Nesting.step? ⟨⟨name, attrs, done⟩ :: stack, es⟩ (.endTag name) =
      some ⟨stack, done ++ [.mk name attrs es]⟩ := if_pos rfl
  rw [List.foldlM_cons, opened, Option.bind_eq_bind, Option.bind_some, List.foldlM_append, h,
    Option.bind_eq_bind, Option.bind_some, List.nil_append, List.foldlM_cons, closed]
  rfl

theorem nests_text {ks : List Token} {es : List Element} (t : Text) (h : Nests ks es) :
    Nests (.text t :: ks) es := by
  intro stack done
  rw [List.foldlM_cons]
  exact h stack done

theorem Nests.nested? {ks : List Token} {es : List Element} (h : Nests ks es) :
    nested? ks = some es := by
  rw [Xml.nested?, h]
  rfl

end FieldMap.Xml

namespace FieldMap.Markup

open Xml

/-- The tokens of lines, each line read on its own and comments left out. -/
def lineTokens? : List Step → Option (List Token)
  | [] => some []
  | step :: steps =>
    if step.isComment then lineTokens? steps
    else
      match tokens? step.shown, lineTokens? steps with
      | some ks, some others => some (ks ++ others)
      | _, _ => none

def elements? (steps : List Step) : Option (List Element) :=
  (lineTokens? steps).bind nested?

def Tag.element (t : Tag) (children : List Element) : Element :=
  .mk (wordName t.name) (t.attrs.map Attr.raw) children

def Inline.element : Inline → Element
  | .empty tag => tag.element []
  | .text tag _ => tag.element []
  | .around tag content => tag.element [content.element]

mutual

def elements : Markup → List Element
  | .line element => [element.element]
  | .block tag body => [tag.element (allElements body)]
  | .comment _ => []

def allElements : List Markup → List Element
  | [] => []
  | m :: ms => m.elements ++ allElements ms

end

theorem allElements_append (a b : List Markup) :
    allElements (a ++ b) = allElements a ++ allElements b :=
  Trees.append rfl (fun _ _ => rfl) a b

theorem nests_inline (e : Inline) : Nests e.tokens [e.element] := by
  induction e with
  | empty tag => exact nests_empty _ _
  | text tag content =>
    have inner : Nests (textTokens (escapeText content)) [] := by
      rw [textTokens]
      split
      · exact nests_nil
      · exact nests_text _ nests_nil
    exact nests_element inner
  | around tag content ih => exact nests_element ih

def Forms (steps : List Step) (elements : List Element) : Prop :=
  ∃ ks, Nests ks elements ∧
    ∀ rest, lineTokens? (steps ++ rest) = (lineTokens? rest).map (ks ++ ·)

theorem forms_nil : Forms [] [] := by
  refine ⟨[], nests_nil, fun rest => ?_⟩
  cases h : lineTokens? rest <;> simp [h]

theorem Forms.append {a b : List Step} {es fs : List Element} (first : Forms a es)
    (second : Forms b fs) : Forms (a ++ b) (es ++ fs) := by
  obtain ⟨ks, hks, readA⟩ := first
  obtain ⟨ls, hls, readB⟩ := second
  refine ⟨ks ++ ls, hks.append hls, fun rest => ?_⟩
  rw [List.append_assoc, readA, readB, Option.map_map]
  simp [Function.comp_def]

theorem lineTokens?_cons {s : Step} {ks : List Token} (line : s.isComment = false)
    (read : Reads s.shown ks) (rest : List Step) :
    lineTokens? (s :: rest) = (lineTokens? rest).map (ks ++ ·) := by
  have alone : tokens? s.shown = some ks := by
    have whole := read []
    rw [List.append_nil, tokens?] at whole
    rw [whole]
    simp
  rw [lineTokens?, line, alone]
  cases lineTokens? rest <;> rfl

theorem allReadable_append {a b : List Markup} :
    AllReadable (a ++ b) ↔ AllReadable a ∧ AllReadable b :=
  Trees.append_iff trivial (fun _ _ => Iff.rfl) a b

mutual

theorem forms_steps (m : Markup) (h : AllReadable m.bare) : Forms m.steps m.elements := by
  cases m with
  | line element =>
    refine ⟨element.tokens, nests_inline element, fun rest => ?_⟩
    exact lineTokens?_cons (s := .line element.write) rfl (reads_inline h.1) rest
  | block tag body =>
    obtain ⟨⟨readable, inner⟩, _⟩ := h
    obtain ⟨ks, nests, read⟩ := forms_allSteps body inner
    have start := lineTokens?_cons (s := .start tag.startText) rfl (reads_startText readable)
    have finish := lineTokens?_cons (s := .finish tag.endText) rfl (reads_endText readable)
    refine ⟨tag.startToken false :: (ks ++ [tag.endToken]), nests_element nests, fun rest => ?_⟩
    rw [steps, List.cons_append, start, List.append_assoc, read, List.singleton_append, finish,
      Option.map_map, Option.map_map]
    simp [Function.comp_def]
  | comment text =>
    refine ⟨[], nests_nil, fun rest => ?_⟩
    simp [steps, lineTokens?, Step.isComment]

theorem forms_allSteps (ms : List Markup) (h : AllReadable (allBare ms)) :
    Forms (allSteps ms) (allElements ms) := by
  cases ms with
  | nil => exact forms_nil
  | cons m ms =>
    obtain ⟨first, others⟩ := allReadable_append.mp h
    exact (forms_steps m first).append (forms_allSteps ms others)

end

theorem elements?_allSteps {ms : List Markup} (h : AllReadable (allBare ms)) :
    elements? (allSteps ms) = some (allElements ms) := by
  obtain ⟨ks, nests, read⟩ := forms_allSteps ms h
  have lines := read []
  rw [List.append_nil] at lines
  rw [elements?, lines, lineTokens?, Option.map_some, List.append_nil]
  exact nests.nested?

end FieldMap.Markup
