import Mathlib.Data.List.TakeWhile
import FieldMap.Proofs.MarkupTokens
import FieldMap.Proofs.Trees
import FieldMap.Proofs.XmlCharacters

/-!
Markup assembled into the nodes of a document. Each tag that declares no namespace opens an element
in the scope around it, so the tokens of a piece of markup add exactly its nodes to the innermost
open element and leave the elements around it as they were.
-/

namespace FieldMap.Xml

theorem IsWord.xmlText {w : Text} (h : IsWord w) : XmlText w :=
  fun c hc => isXmlChar_of_isNameChar (h.chars c hc)

structure IsNCName (w : Text) : Prop where
  start : startsName w = true
  chars : ∀ c ∈ w, isNameChar c = true
  no_colon : ':' ∉ w

instance (w : Text) : Decidable (IsNCName w) :=
  decidable_of_iff (startsName w = true ∧ w.all isNameChar = true ∧ ':' ∉ w)
    ⟨fun h => ⟨h.1, List.all_eq_true.1 h.2.1, h.2.2⟩,
      fun h => ⟨h.start, List.all_eq_true.2 h.chars, h.no_colon⟩⟩

theorem IsNCName.ofWord? {w : Text} (h : IsNCName w) : QName.ofWord? w = some ⟨[], w⟩ := by
  have whole : List.splitOn ':' w = [w] := List.splitOn_eq_singleton h.no_colon
  simp [QName.ofWord?, whole, h.start]

theorem IsNCName.isWord {w : Text} (h : IsNCName w) : IsWord w :=
  ⟨h.chars, by rw [h.ofWord?]; rfl⟩

theorem IsNCName.wordName {w : Text} (h : IsNCName w) : wordName w = ⟨[], w⟩ := by
  rw [Xml.wordName, h.ofWord?]
  rfl

def run (s : State) (ks : List Token) : Option State :=
  ks.foldlM State.step? s

theorem run_append {s s' : State} {ks : List Token} (h : run s ks = some s') (ls : List Token) :
    run s (ks ++ ls) = run s' ls := by
  rw [run, List.foldlM_append, show List.foldlM State.step? s ks = some s' from h]
  rfl

theorem run_cons {s s' : State} {k : Token} (h : s.step? k = some s') (ks : List Token) :
    run s (k :: ks) = run s' ks := by
  rw [run, List.foldlM_cons, h]
  rfl

theorem assemble?_eq_run (s : State) (ks : List Token) :
    assemble? s ks = (run s ks).bind fun s' => if s'.stack.isEmpty then s'.root else none := by
  induction ks generalizing s with
  | nil => rfl
  | cons k ks ih =>
    rw [assemble?]
    cases h : s.step? k with
    | none => simp [run, h]
    | some s' =>
      rw [run_cons h]
      exact ih s'

def Open.extend (o : Open) (ns : List Node) : Open :=
  { o with done := ns.reverse ++ o.done }

theorem extend_extend (o : Open) (ns ms : List Node) :
    (o.extend ns).extend ms = o.extend (ns ++ ms) := by
  simp [Open.extend]

/-- In an element with a scope the tokens stand for these nodes, whatever is around it. -/
def Adds (scope : Scope) (ks : List Token) (ns : List Node) : Prop :=
  ∀ (o : Open) (os : List Open) (root : Option Node), o.scope = scope →
    run ⟨o :: os, root⟩ ks = some ⟨o.extend ns :: os, root⟩

theorem adds_nil (scope : Scope) : Adds scope [] [] := by
  intro o os root _
  rfl

theorem Adds.append {scope : Scope} {ks ls : List Token} {ns ms : List Node}
    (first : Adds scope ks ns) (second : Adds scope ls ms) :
    Adds scope (ks ++ ls) (ns ++ ms) := by
  intro o os root h
  rw [run_append (first o os root h), second (o.extend ns) os root h, extend_extend]

theorem adds_text {t u : Text} (scope : Scope) (h : resolve? plainText t = some u) :
    Adds scope [.text t] [.text u] := by
  intro o os root _
  have step : State.step? ⟨o :: os, root⟩ (.text t) = some ⟨o.extend [.text u] :: os, root⟩ := by
    simp [State.step?, h, State.add, Open.extend]
  rw [run_cons step]
  rfl

theorem adds_comment (scope : Scope) (t : Text) : Adds scope [.comment t] [.comment t] := by
  intro o os root _
  rfl

theorem declarations?_of_none {done : Scope} {values : List (QName × Text)}
    (h : ∀ v ∈ values, v.1.space = [] ∧ v.1.base ≠ "xmlns".toList) :
    declarations? done values = some done := by
  induction values with
  | nil => rfl
  | cons v values ih =>
    obtain ⟨name, value⟩ := v
    obtain ⟨space, base⟩ := h _ List.mem_cons_self
    simp only at space base
    rw [declarations?, if_neg (by rw [space]; decide), if_neg base]
    exact ih fun w hw => h w (List.mem_cons_of_mem _ hw)

theorem attributes?_of_distinct {scope : Scope} {done : List Attr} {values : List (QName × Text)}
    (h : ∀ v ∈ values, v.1.space = [] ∧ v.1.base ≠ "xmlns".toList)
    (distinct : (done.map (·.base) ++ values.map (·.1.base)).Nodup) :
    attributes? scope done values =
      some (done ++ values.map fun v => Attr.mk none v.1.base v.2) := by
  induction values generalizing done with
  | nil => simp [attributes?]
  | cons v values ih =>
    obtain ⟨⟨space, base⟩, value⟩ := v
    obtain ⟨e, ne⟩ := h _ List.mem_cons_self
    simp only at e ne
    subst e
    have plain : isDeclaration ⟨[], base⟩ = false := by simp [isDeclaration]; simpa using ne
    have fresh : (done.any fun a => a.space = none && a.base = base) = false := by
      rw [List.any_eq_false]
      intro a ha
      have other : a.base ≠ base := by
        rintro rfl
        rw [List.map_cons, List.nodup_append] at distinct
        exact distinct.2.2 _ (List.mem_map_of_mem ha) _ List.mem_cons_self rfl
      simp [other]
    have next : ((done ++ [Attr.mk none base value]).map (·.base) ++ values.map (·.1.base)).Nodup := by
      simpa using distinct
    rw [attributes?, plain]
    simp only [Bool.false_eq_true, if_false, attrSpace?, if_true, fresh]
    rw [ih (fun w hw => h w (List.mem_cons_of_mem _ hw)) next]
    simp

end FieldMap.Xml

namespace FieldMap.Markup

open Xml

structure Attr.Plain (a : Attr) : Prop where
  name : IsNCName a.name
  not_xmlns : a.name ≠ "xmlns".toList
  inside : ∀ c ∈ a.written, c ≠ '<' ∧ c ≠ '"'
  value : (resolve? plainValue a.written).isSome = true
  chars : XmlText a.written

/-- A tag without declarations whose prefix is known in a scope. -/
structure Tag.Plain (scope : Scope) (t : Tag) : Prop where
  word : IsWord t.name
  space : (elementSpace? scope (wordName t.name).space).isSome = true
  attrs : ∀ a ∈ t.attrs, a.Plain
  distinct : (t.attrs.map (·.name)).Nodup

def Attr.read (a : Attr) : Xml.Attr :=
  ⟨none, a.name, (resolve? plainValue a.written).getD []⟩

def Tag.opened (scope : Scope) (t : Tag) : Open :=
  ⟨wordName t.name, (elementSpace? scope (wordName t.name).space).getD none,
    t.attrs.map Attr.read, scope, []⟩

def Tag.node (scope : Scope) (t : Tag) (children : List Node) : Node :=
  .element (wordName t.name) ((elementSpace? scope (wordName t.name).space).getD none)
    (t.attrs.map Attr.read) children

theorem Attr.Plain.readable {a : Attr} (h : a.Plain) : a.Readable :=
  ⟨h.name.isWord, h.inside⟩

theorem Tag.Plain.readable {scope : Scope} {t : Tag} (h : t.Plain scope) : t.Readable :=
  ⟨h.word, fun a ha => (h.attrs a ha).readable⟩

theorem values?_raw {attrs : List Attr} (h : ∀ a ∈ attrs, a.Plain) :
    values? (attrs.map Attr.raw) =
      some (attrs.map fun a => (⟨[], a.name⟩, a.read.value)) := by
  induction attrs with
  | nil => rfl
  | cons a attrs ih =>
    have ha := h a List.mem_cons_self
    have others := ih fun b hb => h b (List.mem_cons_of_mem _ hb)
    obtain ⟨v, hv⟩ := Option.isSome_iff_exists.1 ha.value
    simp [values?, Attr.raw, Attr.read, ha.name.wordName, hv] at others ⊢
    rw [others]

theorem open?_raw {scope : Scope} {t : Tag} (h : t.Plain scope) :
    open? scope (wordName t.name) (t.attrs.map Attr.raw) = some (t.opened scope) := by
  have plain : ∀ v ∈ t.attrs.map fun a => (QName.mk [] a.name, a.read.value),
      v.1.space = [] ∧ v.1.base ≠ "xmlns".toList := by
    intro v hv
    obtain ⟨a, ha, rfl⟩ := List.mem_map.1 hv
    exact ⟨rfl, (h.attrs a ha).not_xmlns⟩
  have distinct : (([] : List Xml.Attr).map (·.base) ++
      (t.attrs.map fun a => (QName.mk [] a.name, a.read.value)).map (·.1.base)).Nodup := by
    simpa [Function.comp_def] using h.distinct
  obtain ⟨space, known⟩ := Option.isSome_iff_exists.1 h.space
  have attrs : attributes? scope [] _ = some _ := attributes?_of_distinct plain distinct
  simp only [open?, values?_raw h.attrs, declarations?_of_none plain, Option.bind_eq_bind,
    Option.bind_some, List.nil_append, known, attrs]
  simp [Tag.opened, known, Attr.read, Function.comp_def]

theorem close_opened (scope : Scope) (t : Tag) (ns : List Node) :
    ((t.opened scope).extend ns).close = t.node scope ns := by
  simp [Open.close, Tag.opened, Open.extend, Tag.node]

theorem adds_empty {scope : Scope} {t : Tag} (h : t.Plain scope) :
    Adds scope [t.startToken true] [t.node scope []] := by
  rintro o os root rfl
  have step : State.step? ⟨o :: os, root⟩ (t.startToken true) =
      some ⟨o.extend [t.node o.scope []] :: os, root⟩ := by
    simp [State.step?, Tag.startToken, open?_raw h, State.finish, State.add,
      ← close_opened o.scope t [], Open.extend]
  rw [run_cons step]
  rfl

/-- A tag around tokens is one element around their nodes: they are added to the element that the tag
opens, which has the scope around it. -/
theorem adds_element {scope : Scope} {t : Tag} {ks : List Token} {ns : List Node}
    (h : t.Plain scope) (inner : Adds scope ks ns) :
    Adds scope (t.startToken false :: (ks ++ [t.endToken])) [t.node scope ns] := by
  rintro o os root rfl
  have start : State.step? ⟨o :: os, root⟩ (t.startToken false) =
      some ⟨t.opened o.scope :: o :: os, root⟩ := by
    simp [State.step?, Tag.startToken, open?_raw h]
  have finish : State.step? ⟨(t.opened o.scope).extend ns :: o :: os, root⟩ t.endToken =
      some ⟨o.extend [t.node o.scope ns] :: os, root⟩ := by
    have name : ((t.opened o.scope).extend ns).name = wordName t.name := rfl
    simp only [State.step?, Tag.endToken, name, if_true, State.finish, State.add, close_opened]
    rfl
  rw [run_cons start, run_append (inner (t.opened o.scope) (o :: os) root rfl), run_cons finish]
  rfl

def textNodes (t : Text) : List Node :=
  if t = [] then [] else [.text t]

def Inline.node (scope : Scope) : Inline → Node
  | .empty tag => tag.node scope []
  | .text tag content => tag.node scope (textNodes content)
  | .around tag content => tag.node scope [content.node scope]

def Inline.Plain (scope : Scope) : Inline → Prop
  | .empty tag => tag.Plain scope
  | .text tag content => tag.Plain scope ∧ XmlText content
  | .around tag content => tag.Plain scope ∧ content.Plain scope

theorem Inline.Plain.readable {scope : Scope} {e : Inline} (h : e.Plain scope) : e.Readable := by
  induction e with
  | empty tag => exact Tag.Plain.readable h
  | text tag content => exact h.1.readable
  | around tag content ih => exact ⟨h.1.readable, ih h.2⟩

theorem adds_textTokens (scope : Scope) (t : Text) :
    Adds scope (textTokens (escapeText t)) (textNodes t) := by
  by_cases empty : t = []
  · subst empty
    exact adds_nil scope
  · have written : escapeText t ≠ [] := by
      intro e
      have resolved := resolve?_escapeText t
      rw [e, resolve?_of_dropWhile_nil rfl] at resolved
      exact empty (Option.some.inj resolved).symm
    rw [textTokens, if_neg written, textNodes, if_neg empty]
    exact adds_text scope (resolve?_escapeText t)

theorem adds_inline {scope : Scope} {e : Inline} (h : e.Plain scope) :
    Adds scope e.tokens [e.node scope] := by
  induction e with
  | empty tag => exact adds_empty h
  | text tag content => exact adds_element h.1 (adds_textTokens scope content)
  | around tag content ih => exact adds_element h.1 (ih h.2)

theorem resolve?_gap (indent depth : Nat) :
    resolve? plainText (gap indent depth) = some (gap indent depth) := by
  have free : (gap indent depth).dropWhile (· ≠ '&') = [] := by
    rw [List.dropWhile_eq_nil_iff]
    intro c hc
    rcases mem_gap hc with rfl | rfl <;> rfl
  have spaces (n : Nat) : plainText (List.replicate n ' ') = List.replicate n ' ' := by
    induction n with
    | zero => rfl
    | succ n ih => rw [List.replicate_succ, plainText_cons (by decide), ih]
  rw [resolve?_of_dropWhile_nil free, gap, plainText_cons (by decide), spaces]

mutual

/-- The nodes of a piece of markup laid out at a depth: each line stands after a line break. -/
def nodes (scope : Scope) (indent depth : Nat) : Markup → List Node
  | .line element => [.text (gap indent depth), element.node scope]
  | .block tag body =>
    [.text (gap indent depth),
      tag.node scope (allNodes scope indent (depth + 1) body ++ [.text (gap indent depth)])]
  | .comment text => [.text (gap indent depth), .comment (commentBody text)]

def allNodes (scope : Scope) (indent depth : Nat) : List Markup → List Node
  | [] => []
  | m :: ms => m.nodes scope indent depth ++ allNodes scope indent depth ms

end

theorem allNodes_append (scope : Scope) (indent depth : Nat) (ms ns : List Markup) :
    allNodes scope indent depth (ms ++ ns) =
      allNodes scope indent depth ms ++ allNodes scope indent depth ns :=
  Trees.append rfl (fun _ _ => rfl) ms ns

mutual

def Plain (scope : Scope) : Markup → Prop
  | .line element => element.Plain scope
  | .block tag body => tag.Plain scope ∧ AllPlain scope body
  | .comment text => isCommentText (commentBody text) = true ∧ XmlText text

def AllPlain (scope : Scope) : List Markup → Prop
  | [] => True
  | m :: ms => m.Plain scope ∧ AllPlain scope ms

end

theorem allPlain_iff {scope : Scope} {ms : List Markup} :
    AllPlain scope ms ↔ ∀ m ∈ ms, m.Plain scope :=
  Trees.iff_forall trivial (fun _ _ => Iff.rfl) ms

theorem allPlain_append {scope : Scope} {ms ns : List Markup} :
    AllPlain scope (ms ++ ns) ↔ AllPlain scope ms ∧ AllPlain scope ns :=
  Trees.append_iff trivial (fun _ _ => Iff.rfl) ms ns

mutual

theorem Plain.readable {scope : Scope} (m : Markup) (h : m.Plain scope) : m.Readable := by
  cases m with
  | line element => exact Inline.Plain.readable h
  | block tag body => exact ⟨h.1.readable, AllPlain.readable body h.2⟩
  | comment text => exact h.1

theorem AllPlain.readable {scope : Scope} (ms : List Markup) (h : AllPlain scope ms) :
    AllReadable ms := by
  cases ms with
  | nil => trivial
  | cons m ms => exact ⟨Plain.readable m h.1, AllPlain.readable ms h.2⟩

end

mutual

theorem adds_tokens {scope : Scope} (indent depth : Nat) (m : Markup) (h : m.Plain scope) :
    Adds scope (m.tokens indent depth) (m.nodes scope indent depth) := by
  have space := adds_text scope (resolve?_gap indent depth)
  cases m with
  | line element => exact space.append (adds_inline h)
  | block tag body =>
    have inner := (adds_allTokens indent (depth + 1) body h.2).append space
    have whole := space.append (adds_element h.1 inner)
    simpa [tokens, nodes] using whole
  | comment text => exact space.append (adds_comment scope (commentBody text))

theorem adds_allTokens {scope : Scope} (indent depth : Nat) (ms : List Markup)
    (h : AllPlain scope ms) :
    Adds scope (allTokens indent depth ms) (allNodes scope indent depth ms) := by
  cases ms with
  | nil => exact adds_nil scope
  | cons m ms =>
    exact (adds_tokens indent depth m h.1).append (adds_allTokens indent depth ms h.2)

end

theorem Attr.plain_of {name value : Text} (word : IsNCName name) (ne : name ≠ "xmlns".toList)
    (h : XmlText value) : (Attr.of name value).Plain where
  name := word
  not_xmlns := ne
  inside := fun _ hc => ⟨(mem_escapeAttr hc).1, (mem_escapeAttr hc).2.1⟩
  value := by rw [Attr.of, resolve?_escapeAttr]; rfl
  chars := xmlText_escapeAttr h

theorem xmlText_attrs {attrs : List Attr}
    (h : ∀ a ∈ attrs, XmlText a.name ∧ XmlText a.written) : XmlText (attrs.flatMap Attr.text) := by
  intro c hc
  obtain ⟨a, ha, hca⟩ := List.mem_flatMap.1 hc
  obtain ⟨name, written⟩ := h a ha
  have whole : XmlText a.text :=
    (name.between.append written).append (by decide)
  exact whole c hca

theorem xmlText_tag {t : Tag} (name : XmlText t.name)
    (attrs : ∀ a ∈ t.attrs, XmlText a.name ∧ XmlText a.written) :
    XmlText t.startText ∧ XmlText t.emptyText ∧ XmlText t.endText := by
  have content : XmlText t.content := name.append (xmlText_attrs attrs)
  refine ⟨?_, ?_, ?_⟩
  · exact content.between
  · exact content.between
  · exact name.between

theorem Tag.Plain.xmlText {scope : Scope} {t : Tag} (h : t.Plain scope) :
    XmlText t.startText ∧ XmlText t.emptyText ∧ XmlText t.endText :=
  xmlText_tag h.word.xmlText fun a ha => ⟨(h.attrs a ha).name.isWord.xmlText, (h.attrs a ha).chars⟩

theorem Inline.Plain.xmlText {scope : Scope} {e : Inline} (h : e.Plain scope) :
    XmlText e.write := by
  induction e with
  | empty tag => exact (Tag.Plain.xmlText h).2.1
  | text tag content =>
    obtain ⟨start, -, finish⟩ := h.1.xmlText
    exact (start.append (xmlText_escapeText h.2)).append finish
  | around tag content ih =>
    obtain ⟨start, -, finish⟩ := h.1.xmlText
    exact (start.append (ih h.2)).append finish

mutual

theorem Plain.xmlText {scope : Scope} (m : Markup) (h : m.Plain scope) :
    ∀ step ∈ m.steps, XmlText step.shown := by
  cases m with
  | line element =>
    rw [steps, List.forall_mem_singleton]
    exact Inline.Plain.xmlText h
  | block tag body =>
    obtain ⟨start, -, finish⟩ := h.1.xmlText
    have inner := AllPlain.xmlText body h.2
    intro step hstep
    simp only [steps, List.mem_cons, List.mem_append, List.not_mem_nil, or_false] at hstep
    rcases hstep with rfl | hstep | rfl
    · exact start
    · exact inner step hstep
    · exact finish
  | comment text =>
    rw [steps, List.forall_mem_singleton]
    exact (xmlText_commentText h.2).between

theorem AllPlain.xmlText {scope : Scope} (ms : List Markup) (h : AllPlain scope ms) :
    ∀ step ∈ allSteps ms, XmlText step.shown := by
  cases ms with
  | nil => simp [allSteps]
  | cons m ms =>
    intro step hstep
    rcases List.mem_append.1 hstep with hstep | hstep
    · exact Plain.xmlText m h.1 step hstep
    · exact AllPlain.xmlText ms h.2 step hstep

end

theorem xmlText_write {steps : List Step} (h : ∀ step ∈ steps, XmlText step.shown)
    (indent depth : Nat) : XmlText (write indent depth steps).flatten := by
  have space : isXmlChar ' ' = true := by decide
  induction steps generalizing depth with
  | nil => exact List.forall_mem_nil _
  | cons step steps ih =>
    rw [List.forall_mem_cons] at h
    have line (d : Nat) : XmlText (lineText indent d step.shown) :=
      ((xmlText_replicate space _).append h.1).append (by decide)
    rw [write, List.flatten_cons, step.text_eq_lineText]
    exact (line _).append (ih h.2 _)

end FieldMap.Markup
