import Mathlib.Data.List.Nodup
import FieldMap.Proofs.MarkupNodes
import FieldMap.Stylesheet.Sheet

/-!
A stylesheet read as a document. Its outermost tag can be opened when the prefixes of the table are
names that may be declared, and instructions are then known inside it. So a stylesheet whose body is
plain markup is read as one element around the nodes of that body.
-/

namespace FieldMap.Xml

/-- A prefix and a namespace that may be declared for it. -/
structure IsBinding (space uri : Text) : Prop where
  name : IsNCName space
  not_xml : space ≠ "xml".toList
  not_xmlns : space ≠ "xmlns".toList
  uri_ne_nil : uri ≠ []
  not_xmlUri : uri ≠ xmlUri
  not_xmlnsUri : uri ≠ xmlnsUri

instance (space uri : Text) : Decidable (IsBinding space uri) :=
  decidable_of_iff (IsNCName space ∧ space ≠ "xml".toList ∧ space ≠ "xmlns".toList ∧ uri ≠ [] ∧
      uri ≠ xmlUri ∧ uri ≠ xmlnsUri)
    ⟨fun ⟨a, b, c, d, e, f⟩ => ⟨a, b, c, d, e, f⟩,
      fun ⟨a, b, c, d, e, f⟩ => ⟨a, b, c, d, e, f⟩⟩

theorem declarations?_filter (done : Scope) (values : List (QName × Text)) :
    declarations? done values = declarations? done (values.filter (isDeclaration ·.1)) := by
  induction values generalizing done with
  | nil => rfl
  | cons v values ih =>
    obtain ⟨name, uri⟩ := v
    by_cases declares : isDeclaration name = true
    · rw [List.filter_cons_of_pos (by exact declares)]
      simp only [declarations?, ih]
    · have plain : name.space ≠ "xmlns".toList ∧ name.base ≠ "xmlns".toList := by
        simpa only [isDeclaration, Bool.or_eq_true, decide_eq_true_eq, not_or] using declares
      rw [List.filter_cons_of_neg (by exact declares), declarations?, if_neg plain.1, if_neg plain.2]
      exact ih done

theorem attributes?_filter (scope : Scope) (done : List Attr) (values : List (QName × Text)) :
    attributes? scope done values =
      attributes? scope done (values.filter fun v => !isDeclaration v.1) := by
  induction values generalizing done with
  | nil => rfl
  | cons v values ih =>
    obtain ⟨name, value⟩ := v
    by_cases declares : isDeclaration name = true
    · rw [attributes?, if_pos declares, List.filter_cons_of_neg (by simp [declares])]
      exact ih done
    · rw [attributes?, if_neg declares, List.filter_cons_of_pos (by simp [declares]), attributes?,
        if_neg declares]
      cases attrSpace? scope name.space with
      | none => rfl
      | some space =>
        simp only
        split
        · rfl
        · exact ih _

theorem declarations?_bindings {done : Scope} {spaces : List (Text × Text)}
    (h : ∀ e ∈ spaces, IsBinding e.1 e.2) (distinct : (done.map (·.1) ++ spaces.map (·.1)).Nodup)
    (rest : List (QName × Text)) :
    declarations? done (spaces.map (fun e => (QName.mk "xmlns" e.1, e.2)) ++ rest) =
      declarations? (done ++ spaces) rest := by
  induction spaces generalizing done with
  | nil => simp
  | cons e spaces ih =>
    obtain ⟨space, uri⟩ := e
    have binding : IsBinding space uri := h _ List.mem_cons_self
    have fresh : (done.any fun d => decide (d.1 = space)) = false := by
      rw [List.any_eq_false]
      intro d hd
      have other : d.1 ≠ space := by
        rintro rfl
        rw [List.map_cons, List.nodup_append] at distinct
        exact distinct.2.2 _ (List.mem_map_of_mem hd) _ List.mem_cons_self rfl
      simp [other]
    have next : ((done ++ [(space, uri)]).map (·.1) ++ spaces.map (·.1)).Nodup := by
      simpa using distinct
    have free : ¬ ((decide (uri = xmlUri) || done.any fun d => decide (d.1 = space)) = true) := by
      rw [fresh, decide_eq_false binding.not_xmlUri]
      decide
    rw [List.map_cons, List.cons_append, declarations?, if_pos rfl, if_neg binding.not_xmlnsUri,
      if_neg binding.not_xml, if_neg free, ih (fun d hd => h d (List.mem_cons_of_mem _ hd)) next,
      List.append_assoc]
    rfl

theorem open?_name {outer : Scope} {name : QName} {raw : List RawAttr} {o : Open}
    (h : open? outer name raw = some o) : o.name = name ∧ o.done = [] := by
  simp only [open?, Option.bind_eq_bind, Option.bind_eq_some_iff, Option.some.injEq] at h
  obtain ⟨_, _, _, _, _, _, _, _, rfl⟩ := h
  exact ⟨rfl, rfl⟩

end FieldMap.Xml

namespace FieldMap.Markup

open Xml

theorem escapeAttr_eq_self {t : Text} (h : ∀ c ∈ t, Xml.isNameChar c = true ∨ c = ' ') :
    escapeAttr t = t := by
  have special : ('&' :: referenced).all (fun d => !Xml.isNameChar d && d ≠ ' ') = true := by
    decide
  apply escapeAttr_of_plain
  intro c hc listed
  have other := List.all_eq_true.mp special c listed
  rcases h c hc with name | rfl
  · simp [name] at other
  · simp at other

def Tag.ofPairs (name : Text) (pairs : List (Text × Text)) : Tag :=
  ⟨name, pairs.map fun p => Attr.of p.1 p.2⟩

theorem values?_ofPairs (name : Text) (pairs : List (Text × Text)) :
    values? ((Tag.ofPairs name pairs).attrs.map Attr.raw) =
      some (pairs.map fun p => (wordName p.1, p.2)) := by
  induction pairs with
  | nil => rfl
  | cons p pairs ih =>
    simp only [Tag.ofPairs, List.map_cons, values?, Attr.raw, Attr.of, resolve?_escapeAttr] at ih ⊢
    rw [ih]

theorem readable_ofPairs {name : Text} {pairs : List (Text × Text)} (word : IsWord name)
    (words : ∀ p ∈ pairs, IsWord p.1) : (Tag.ofPairs name pairs).Readable where
  word := word
  attrs := by
    intro a ha
    obtain ⟨p, hp, rfl⟩ := List.mem_map.1 ha
    exact ⟨words p hp, fun _ hc => ⟨(mem_escapeAttr hc).1, (mem_escapeAttr hc).2.1⟩⟩

end FieldMap.Markup

namespace FieldMap.Stylesheet

open Markup (Attr Tag)
open Xml

/-- Namespaces that can be declared together beside that of the instructions. -/
structure Declarable (spaces : List (Text × Text)) : Prop where
  each : ∀ e ∈ spaces, IsBinding e.1 e.2
  distinct : (spaces.map (·.1)).Nodup
  not_xsl : ∀ e ∈ spaces, e.1 ≠ "xsl".toList

theorem declarable_nil : Declarable [] :=
  ⟨List.forall_mem_nil _, List.nodup_nil, List.forall_mem_nil _⟩

theorem declarable_schema : Declarable [("xs", schemaUri)] where
  each := List.forall_mem_singleton.2 (by decide)
  distinct := List.nodup_singleton _
  not_xsl := List.forall_mem_singleton.2 (by decide)

theorem mem_declared_iff {own : List (Text × Text)} {table : Namespaces} {e : Text × Text} :
    e ∈ declared own table ↔ e ∈ own ∨ e ∈ table.entries ∧ e.1 ≠ Namespaces.defaultKey ∧
      e.1 ≠ "xsl".toList ∧ ∀ f ∈ own, f.1 ≠ e.1 := by
  rw [declared, Namespaces.prefixed, List.mem_append, List.mem_filter, List.mem_filter]
  simp [and_assoc]

theorem nodup_declared {own : List (Text × Text)} (h : (own.map (·.1)).Nodup) (table : Namespaces) :
    ((declared own table).map (·.1)).Nodup := by
  rw [declared, List.map_append, List.nodup_append]
  refine ⟨h, ?_, ?_⟩
  · exact table.nodup_names.sublist ((List.filter_sublist.trans List.filter_sublist).map _)
  · intro a ha b hb
    obtain ⟨f, hf, rfl⟩ := List.mem_map.1 ha
    obtain ⟨e, he, rfl⟩ := List.mem_map.1 hb
    have others := (List.mem_filter.1 he).2
    simp only [Bool.and_eq_true, Bool.not_eq_true', List.any_eq_false, decide_eq_true_eq] at others
    exact others.2 f hf

theorem ne_xsl_of_mem_declared {own : List (Text × Text)} (h : ∀ e ∈ own, e.1 ≠ "xsl".toList)
    {table : Namespaces} : ∀ e ∈ declared own table, e.1 ≠ "xsl".toList := by
  intro e he
  rcases mem_declared_iff.1 he with he | he
  · exact h e he
  · exact he.2.2.1

theorem declarable_declared {own : List (Text × Text)} (h : Declarable own) {table : Namespaces}
    (usable : ∀ e ∈ table.entries, IsBinding e.1 e.2) : Declarable (declared own table) where
  each := by
    intro e he
    rcases mem_declared_iff.1 he with he | he
    · exact h.each e he
    · exact usable e he.1
  distinct := nodup_declared h.distinct table
  not_xsl := ne_xsl_of_mem_declared h.not_xsl

theorem nodup_instructions {spaces : List (Text × Text)} (distinct : (spaces.map (·.1)).Nodup)
    (not_xsl : ∀ e ∈ spaces, e.1 ≠ "xsl".toList) :
    ((("xsl".toList, xslUri) :: spaces).map (·.1)).Nodup := by
  rw [List.map_cons, List.nodup_cons]
  refine ⟨fun member => ?_, distinct⟩
  obtain ⟨e, he, same⟩ := List.mem_map.1 member
  exact not_xsl e he same

theorem Declarable.names {spaces : List (Text × Text)} (h : Declarable spaces) :
    ∀ e ∈ spaces, IsNCName e.1 := fun e he =>
  (h.each e he).name

def headerPairs (version : Text) (own : List (Text × Text)) (table : Namespaces) :
    List (Text × Text) :=
  let spaces := declared own table
  [("version".toList, version), ("xmlns:xsl".toList, xslUri)] ++
    spaces.map (fun e => ("xmlns:".toList ++ e.1, e.2)) ++
    (table.defaultUri?.map fun uri => ("xmlns".toList, uri)).toList ++
    if spaces.isEmpty then []
    else [("exclude-result-prefixes".toList, List.intercalate " " (spaces.map (·.1)))]

theorem headerTag_eq {own : List (Text × Text)} {table : Namespaces}
    (h : ∀ e ∈ declared own table, IsNCName e.1) (version : Text) :
    headerTag version own table = Tag.ofPairs "xsl:stylesheet" (headerPairs version own table) := by
  have chars : ∀ c ∈ List.intercalate " " ((declared own table).map (·.1)),
      isNameChar c = true ∨ c = ' ' := by
    intro c hc
    rcases Text.mem_of_mem_intercalate hc with space | ⟨name, hname, hcname⟩
    · exact Or.inr (List.mem_singleton.1 space)
    · obtain ⟨e, he, rfl⟩ := List.mem_map.1 hname
      exact Or.inl ((h e he).chars c hcname)
  have excluded (name : Text) :
      Markup.Attr.mk name (List.intercalate " " ((declared own table).map (·.1))) =
        Attr.of name (List.intercalate " " ((declared own table).map (·.1))) := by
    rw [Attr.of, Markup.escapeAttr_eq_self chars]
  unfold headerTag Tag.ofPairs headerPairs
  simp only [excluded, List.map_append, List.map_cons, List.map_nil, List.map_map,
    Function.comp_def, Option.toList_map, apply_ite (List.map fun p : Text × Text => Attr.of p.1 p.2)]

theorem ofWord?_declaration {space : Text} (h : IsNCName space) :
    QName.ofWord? ("xmlns:".toList ++ space) = some ⟨"xmlns", space⟩ := by
  have whole : List.splitOn ':' space = [space] := List.splitOn_eq_singleton h.no_colon
  have split : List.splitOn ':' ("xmlns:".toList ++ space) = ["xmlns".toList, space] := by
    simp [List.splitOn_cons_eq_if_modifyHead, whole]
  rw [QName.ofWord?, split]
  exact if_pos (by rw [h.start]; rfl)

theorem isWord_declaration {space : Text} (h : IsNCName space) :
    IsWord ("xmlns:".toList ++ space) where
  chars := List.forall_mem_append.2 ⟨List.all_eq_true.1 (by decide), h.chars⟩
  isName := by rw [ofWord?_declaration h]; rfl

theorem isWord_of_mem_headerPairs {own : List (Text × Text)} {table : Namespaces}
    (h : ∀ e ∈ declared own table, IsNCName e.1) (version : Text) :
    ∀ p ∈ headerPairs version own table, IsWord p.1 := by
  intro p hp
  simp only [headerPairs, List.mem_append, List.mem_cons, List.not_mem_nil, or_false, List.mem_map,
    Option.mem_toList, Option.map_eq_some_iff] at hp
  rcases hp with (((rfl | rfl) | ⟨e, he, rfl⟩) | ⟨uri, _, rfl⟩) | last
  · exact (show IsNCName "version" by decide).isWord
  · exact isWord_declaration (show IsNCName "xsl" by decide)
  · exact isWord_declaration (h e he)
  · exact (show IsNCName "xmlns" by decide).isWord
  · split at last
    · cases last
    · rw [List.mem_singleton] at last
      subst last
      exact (show IsNCName "exclude-result-prefixes" by decide).isWord

/-- What the outermost tag declares: the instructions, the prefixes and the default namespace. -/
def headerDeclarations (own : List (Text × Text)) (table : Namespaces) : List (QName × Text) :=
  (("xsl".toList, xslUri) :: declared own table).map (fun e => (QName.mk "xmlns" e.1, e.2)) ++
    (table.defaultUri?.map fun uri => (QName.mk [] "xmlns", uri)).toList

def headerExcluded (own : List (Text × Text)) (table : Namespaces) : List (QName × Text) :=
  if (declared own table).isEmpty then []
  else [(QName.mk [] "exclude-result-prefixes", List.intercalate " " ((declared own table).map (·.1)))]

def headerValues (version : Text) (own : List (Text × Text)) (table : Namespaces) :
    List (QName × Text) :=
  (⟨[], "version"⟩, version) :: (headerDeclarations own table ++ headerExcluded own table)

theorem wordName_headerPairs {own : List (Text × Text)} {table : Namespaces}
    (h : ∀ e ∈ declared own table, IsNCName e.1) (version : Text) :
    (headerPairs version own table).map (fun p => (wordName p.1, p.2)) =
      headerValues version own table := by
  have each : (declared own table).map (fun e => (wordName ("xmlns:".toList ++ e.1), e.2)) =
      (declared own table).map fun e => (QName.mk "xmlns" e.1, e.2) := by
    refine List.map_congr_left fun e he => ?_
    rw [wordName, ofWord?_declaration (h e he)]
    rfl
  have instructions : wordName "xmlns:xsl" = ⟨"xmlns", "xsl"⟩ := by decide
  have version' : wordName "version" = ⟨[], "version"⟩ := by decide
  have default' : wordName "xmlns" = ⟨[], "xmlns"⟩ := by decide
  have excluded : wordName "exclude-result-prefixes" = ⟨[], "exclude-result-prefixes"⟩ := by decide
  simp only [headerPairs, headerValues, headerDeclarations, headerExcluded, List.map_append, List.map_cons,
    List.map_nil, List.map_map, Function.comp_def, Option.toList_map, version', instructions,
    default', excluded, each, apply_ite (List.map fun p : Text × Text => (wordName p.1, p.2)),
    List.append_assoc, List.cons_append, List.nil_append]

theorem isDeclaration_headerDeclarations (own : List (Text × Text)) (table : Namespaces) :
    ∀ v ∈ headerDeclarations own table, isDeclaration v.1 = true := by
  intro v hv
  rcases List.mem_append.1 hv with hv | hv
  · obtain ⟨e, _, rfl⟩ := List.mem_map.1 hv
    rfl
  · obtain ⟨uri, _, rfl⟩ := Option.map_eq_some_iff.1 (Option.mem_toList.1 hv)
    rfl

theorem plain_headerExcluded (own : List (Text × Text)) (table : Namespaces) :
    ∀ v ∈ headerExcluded own table, v.1 = ⟨[], "exclude-result-prefixes"⟩ := by
  intro v hv
  rw [headerExcluded] at hv
  split at hv
  · cases hv
  · rw [List.mem_singleton] at hv
    rw [hv]

def headerScope (own : List (Text × Text)) (table : Namespaces) : Scope :=
  ("xsl".toList, xslUri) :: (declared own table ++ (table.defaultUri?.map fun uri => ([], uri)).toList)

theorem declarations?_header {own : List (Text × Text)} {table : Namespaces}
    (h : Declarable (declared own table)) (usable : ∀ e ∈ table.entries, IsBinding e.1 e.2) :
    declarations? [] (headerDeclarations own table) = some (headerScope own table) := by
  have all : ∀ e ∈ ("xsl".toList, xslUri) :: declared own table, IsBinding e.1 e.2 :=
    List.forall_mem_cons.2 ⟨by decide, h.each⟩
  have distinct : (([] : Scope).map (·.1) ++
      (("xsl".toList, xslUri) :: declared own table).map (·.1)).Nodup :=
    nodup_instructions h.distinct h.not_xsl
  rw [headerDeclarations, declarations?_bindings all distinct, List.nil_append, headerScope]
  cases named : table.defaultUri? with
  | none => simp [declarations?]
  | some uri =>
    obtain ⟨e, found, rfl⟩ := Option.map_eq_some_iff.1 named
    have binding := usable e (List.mem_of_find?_eq_some found)
    simp [declarations?, binding.not_xmlUri, binding.not_xmlnsUri]

theorem declarations?_headerValues {own : List (Text × Text)} {table : Namespaces}
    (h : Declarable (declared own table)) (usable : ∀ e ∈ table.entries, IsBinding e.1 e.2)
    (version : Text) :
    declarations? [] (headerValues version own table) = some (headerScope own table) := by
  have first : isDeclaration ⟨[], "version"⟩ = false := by decide
  have none : (headerExcluded own table).filter (isDeclaration ·.1) = [] := by
    rw [List.filter_eq_nil_iff]
    intro v hv
    rw [plain_headerExcluded own table v hv]
    decide
  rw [headerValues, declarations?_filter, List.filter_cons_of_neg (by rw [first]; decide),
    List.filter_append, none, List.append_nil,
    List.filter_eq_self.2 (isDeclaration_headerDeclarations own table)]
  exact declarations?_header h usable

theorem attributes?_headerValues (scope : Scope) (version : Text) (own : List (Text × Text))
    (table : Namespaces) :
    ∃ as, attributes? scope [] (headerValues version own table) = some as := by
  have first : isDeclaration ⟨[], "version"⟩ = false := by decide
  have none : (headerDeclarations own table).filter (fun v => !isDeclaration v.1) = [] := by
    rw [List.filter_eq_nil_iff]
    intro v hv
    rw [isDeclaration_headerDeclarations own table v hv]
    decide
  have same : (headerExcluded own table).filter (fun v => !isDeclaration v.1) =
      headerExcluded own table := by
    rw [List.filter_eq_self]
    intro v hv
    rw [plain_headerExcluded own table v hv]
    decide
  rw [headerValues, attributes?_filter, List.filter_cons_of_pos (by rw [first]; decide),
    List.filter_append, none, same, List.nil_append]
  refine ⟨_, attributes?_of_distinct ?_ ?_⟩
  · rw [List.forall_mem_cons]
    refine ⟨⟨rfl, by simp⟩, fun v hv => ?_⟩
    rw [plain_headerExcluded own table v hv]
    decide
  · rw [headerExcluded]
    split
    · simp
    · simp

theorem open?_headerTag {own : List (Text × Text)} (h : Declarable own) {table : Namespaces}
    (usable : ∀ e ∈ table.entries, IsBinding e.1 e.2) (version : Text) :
    ∃ o, open? [] ⟨"xsl", "stylesheet"⟩ ((headerTag version own table).attrs.map Attr.raw) = some o ∧
      o.scope = headerScope own table := by
  have all := declarable_declared h usable
  have values := Markup.values?_ofPairs "xsl:stylesheet" (headerPairs version own table)
  rw [wordName_headerPairs all.names, ← headerTag_eq all.names] at values
  have scope := declarations?_headerValues all usable version
  have space : elementSpace? (headerScope own table) "xsl" = some (some xslUri) := rfl
  obtain ⟨as, attrs⟩ := attributes?_headerValues (headerScope own table) version own table
  refine ⟨⟨⟨"xsl", "stylesheet"⟩, some xslUri, as, headerScope own table, []⟩, ?_, rfl⟩
  simp only [open?, values, scope, Option.bind_eq_bind, Option.bind_some, List.append_nil, space, attrs]

theorem body?_declaration (rest : Text) : body? (declaration ++ rest) = some rest := by
  rfl

theorem all_isSpace_gap (indent depth : Nat) : (Markup.gap indent depth).all isSpace = true := by
  rw [List.all_eq_true]
  intro c hc
  rcases Markup.mem_gap hc with rfl | rfl <;> decide

theorem assemble?_block {header : Tag} {body : List Markup} {o : Open}
    (opens : open? [] (wordName header.name) (header.attrs.map Attr.raw) = some o)
    (plain : Markup.AllPlain o.scope body) (indent : Nat) :
    assemble? ⟨[], none⟩ ((Markup.block header body).tokens indent 0 ++ [.text ['\n']]) =
      some (.element o.name o.space o.attrs
        (Markup.allNodes o.scope indent 1 body ++ [.text (Markup.gap indent 0)])) := by
  obtain ⟨name, done⟩ := open?_name opens
  have space (s : State) (empty : s.stack = []) (t : Text) (blank : t.all isSpace = true) :
      s.step? (.text t) = some s := by
    simp [State.step?, empty, blank]
  have start : State.step? ⟨[], none⟩ (header.startToken false) = some ⟨[o], none⟩ := by
    simp [State.step?, Tag.startToken, opens]
  have inner := (Markup.adds_allTokens indent 1 body plain).append
    (adds_text o.scope (Markup.resolve?_gap indent 0))
  generalize Markup.allNodes o.scope indent 1 body ++ [.text (Markup.gap indent 0)] = ns at inner ⊢
  have close : (o.extend ns).close = .element o.name o.space o.attrs ns := by
    simp [Open.close, Open.extend, done]
  have finish : State.step? ⟨[o.extend ns], none⟩ header.endToken =
      some ⟨[], some (.element o.name o.space o.attrs ns)⟩ := by
    have same : (o.extend ns).name = wordName header.name := name
    simp only [State.step?, Tag.endToken, same, if_true, State.finish, close]
  have ordered : (Markup.block header body).tokens indent 0 ++ [.text ['\n']] =
      .text (Markup.gap indent 0) :: header.startToken false ::
        ((Markup.allTokens indent 1 body ++ [.text (Markup.gap indent 0)]) ++
          [header.endToken, .text ['\n']]) := by
    simp [Markup.tokens]
  -- One step each for the line break, the start tag, the body, the end tag and the last line break.
  rw [assemble?_eq_run, ordered, run_cons (space _ rfl _ (all_isSpace_gap indent 0)), run_cons start,
    run_append (inner o [] none rfl), run_cons finish, run_cons (space _ rfl _ (by decide))]
  rfl

theorem sheetText_eq (indent : Nat) (header : Tag) (body : List Markup) :
    sheetText indent header body =
      declaration ++ '\n' :: Markup.layout indent (Markup.block header body).steps := by
  simp [sheetText, sheetSteps, Markup.layout, Markup.write, Markup.Step.text, Markup.lineText,
    Markup.Step.depthAfter]

theorem xmlText_headerTag {own : List (Text × Text)} {table : Namespaces}
    (h : ∀ e ∈ declared own table, IsNCName e.1) (texts : ∀ e ∈ declared own table, XmlText e.2)
    (default_text : ∀ uri ∈ table.defaultUri?, XmlText uri) {version : Text}
    (version_text : XmlText version) :
    XmlText (headerTag version own table).startText ∧ XmlText (headerTag version own table).endText := by
  have values : ∀ p ∈ headerPairs version own table, XmlText p.2 := by
    intro p hp
    simp only [headerPairs, List.mem_append, List.mem_cons, List.not_mem_nil, or_false, List.mem_map,
      Option.mem_toList, Option.map_eq_some_iff] at hp
    rcases hp with (((rfl | rfl) | ⟨e, he, rfl⟩) | ⟨uri, named, rfl⟩) | last
    · exact version_text
    · exact (show XmlText xslUri by decide)
    · exact texts e he
    · exact default_text uri named
    · split at last
      · cases last
      · rw [List.mem_singleton] at last
        subst last
        refine xmlText_intercalate (by decide) fun t ht => ?_
        obtain ⟨e, he, rfl⟩ := List.mem_map.1 ht
        exact (h e he).isWord.xmlText
  rw [headerTag_eq h]
  have whole := Markup.xmlText_tag (t := Tag.ofPairs "xsl:stylesheet" (headerPairs version own table))
    (show XmlText "xsl:stylesheet" by decide) (by
      intro a ha
      obtain ⟨p, hp, rfl⟩ := List.mem_map.1 ha
      exact ⟨(isWord_of_mem_headerPairs h version p hp).xmlText,
        Markup.xmlText_escapeAttr (values p hp)⟩)
  exact ⟨whole.1, whole.2.2⟩

theorem readable_headerTag {own : List (Text × Text)} {table : Namespaces}
    (h : ∀ e ∈ declared own table, IsNCName e.1) (version : Text) :
    (headerTag version own table).Readable := by
  rw [headerTag_eq h]
  exact Markup.readable_ofPairs (show IsWord "xsl:stylesheet" by decide)
    (isWord_of_mem_headerPairs h version)

/-- A stylesheet with a plain body is a document: one element around the nodes of the body. -/
theorem parse?_sheetText {own : List (Text × Text)} (h : Declarable own)
    (own_text : ∀ e ∈ own, XmlText e.2) {table : Namespaces}
    (usable : ∀ e ∈ table.entries, IsBinding e.1 e.2) (table_text : ∀ e ∈ table.entries, XmlText e.2)
    {version : Text} (version_text : XmlText version) {body : List Markup}
    (plain : Markup.AllPlain (headerScope own table) body) (indent : Nat) :
    ∃ space attrs, parse? (sheetText indent (headerTag version own table) body) =
      some (.element ⟨"xsl", "stylesheet"⟩ space attrs
        (Markup.allNodes (headerScope own table) indent 1 body ++ [.text (Markup.gap indent 0)])) := by
  have all := declarable_declared h usable
  obtain ⟨o, opens, scope⟩ := open?_headerTag h usable version
  have block : (Markup.block (headerTag version own table) body).Readable :=
    ⟨readable_headerTag all.names version, Markup.AllPlain.readable body plain⟩
  have declared_text : ∀ e ∈ declared own table, XmlText e.2 := fun e he =>
    (mem_declared_iff.1 he).elim (own_text e) fun given => table_text e given.1
  have default_text : ∀ uri ∈ table.defaultUri?, XmlText uri := by
    intro uri named
    obtain ⟨e, found, rfl⟩ := Option.map_eq_some_iff.1 named
    exact table_text e (List.mem_of_find?_eq_some found)
  have shown : ∀ step ∈ (Markup.block (headerTag version own table) body).steps,
      XmlText step.shown := by
    obtain ⟨start, finish⟩ := xmlText_headerTag all.names declared_text default_text version_text
    intro step hstep
    simp only [Markup.steps, List.mem_cons, List.mem_append, List.not_mem_nil, or_false] at hstep
    rcases hstep with rfl | hstep | rfl
    · exact start
    · exact Markup.AllPlain.xmlText body plain step hstep
    · exact finish
  have chars : XmlText (sheetText indent (headerTag version own table) body) := by
    rw [sheetText_eq]
    refine (show XmlText declaration by decide).append (XmlText.cons (by decide) ?_)
    exact Markup.xmlText_write shown indent 0
  refine ⟨o.space, o.attrs, ?_⟩
  rw [parse?, if_pos (List.all_eq_true.2 chars), sheetText_eq, body?_declaration]
  simp only [Markup.tokens?_layout block, Option.bind_some]
  rw [← scope] at plain ⊢
  rw [assemble?_block opens plain, (open?_name opens).1]

end FieldMap.Stylesheet
