import FieldMap.Proofs.SheetDocument

/-!
The outermost tag of a stylesheet as a reader sees it. Values are escaped, so they come back whatever
they hold, but prefixes stand in the tag as they are given. So the tag has the attributes that the
table asks for exactly if each declared prefix is a name and no value has a character that may not
stand in a document.
-/

namespace FieldMap.Xml

section Names

variable {t rest : Text} {name : QName}

theorem isNCName_base_of_ofWord? {w : Text} (chars : ∀ c ∈ w, isNameChar c = true)
    (h : QName.ofWord? w = some name) : IsNCName name.base := by
  have part {p : Text} (hp : p ∈ List.splitOn ':' w) (start : startsName p = true) : IsNCName p :=
    ⟨start, fun c hc => chars c ((Text.isInfix_of_mem_splitOn hp).subset hc),
      Text.not_mem_of_mem_splitOn hp⟩
  unfold QName.ofWord? at h
  split at h
  · next base split =>
    split at h
    · next start =>
      cases h
      exact part (by simp [split]) start
    · cases h
  · next space base split =>
    split at h
    · next start =>
      cases h
      rw [Bool.and_eq_true] at start
      exact part (by simp [split]) start.1
    · cases h
  · cases h

theorem isNCName_base_of_read? (h : QName.read? t = some (name, rest)) : IsNCName name.base := by
  obtain ⟨found, word, e⟩ := Option.map_eq_some_iff.1 h
  cases e
  exact isNCName_base_of_ofWord? (fun c hc => List.mem_takeWhile_imp hc) word

theorem isNCName_base_of_attr? {a : RawAttr} (h : attr? t = some (a, rest)) :
    IsNCName a.name.base := by
  unfold attr? at h
  split at h
  · cases h
  · next found =>
    split at h
    · cases h
    · obtain ⟨⟨value, last⟩, -, e⟩ := Option.map_eq_some_iff.1 h
      cases e
      exact isNCName_base_of_read? found

theorem isNCName_base_of_attrs? {as : List RawAttr} {closed : Bool}
    (h : attrs? t = some (as, closed, rest)) : ∀ a ∈ as, IsNCName a.name.base := by
  fun_induction attrs? t generalizing as closed with
  | case1 =>
    cases h
    exact List.forall_mem_nil _
  | case2 =>
    cases h
    exact List.forall_mem_nil _
  | case3 => cases h
  | case4 t _ a r found _ _ ih =>
    obtain ⟨⟨bs, c, last⟩, later, e⟩ := Option.map_eq_some_iff.1 h
    cases e
    exact List.forall_mem_cons.2 ⟨isNCName_base_of_attr? found, ih later⟩
  | case5 => cases h

theorem attrs?_of_tokens? {word after : Text} {attrs : List RawAttr} {closed : Bool} {ks : List Token}
    (isWord : IsWord word) (stop : ∀ c ∈ after.head?, isNameChar c = false)
    (h : tokens? ('<' :: (word ++ after)) = some (.startTag name attrs closed :: ks)) :
    ∃ rest, attrs? after = some (attrs, closed, rest) := by
  obtain ⟨c, cs, rfl, start⟩ := isWord.head
  have read := read?_word isWord stop
  rw [tokens?] at h
  split at h
  · cases h
  · next token rest taken =>
    obtain ⟨later, -, e⟩ := Option.map_eq_some_iff.1 h
    cases e
    rw [next?, if_pos rfl, List.cons_append, Markup.markup?_name start, startTag?, ← List.cons_append,
      read] at taken
    obtain ⟨⟨as, c, last⟩, found, e⟩ := Option.map_eq_some_iff.1 taken
    cases e
    exact ⟨_, found⟩

end Names

theorem exists_of_mem_values? {attrs : List RawAttr} {values : List (QName × Text)}
    (h : values? attrs = some values) : ∀ v ∈ values, ∃ a ∈ attrs, a.name = v.1 := by
  induction attrs generalizing values with
  | nil =>
    cases h
    exact List.forall_mem_nil _
  | cons a attrs ih =>
    rw [values?] at h
    split at h
    · next value rest _ found =>
      cases h
      rw [List.forall_mem_cons]
      refine ⟨⟨a, List.mem_cons_self, rfl⟩, fun v hv => ?_⟩
      obtain ⟨b, hb, e⟩ := ih found v hv
      exact ⟨b, List.mem_cons_of_mem _ hb, e⟩
    · cases h

end FieldMap.Xml

namespace FieldMap.Markup

open Xml

theorem xmlText_of_escapeAttr {t : Text} (h : XmlText (escapeAttr t)) : XmlText t := by
  intro c hc
  rcases escapeAttrChar_cases c with ⟨e, listed, rfl, -⟩ | same
  · exact (isXmlChar_of_reference listed).1
  · exact h c (List.mem_flatMap.2 ⟨c, hc, by rw [same]; exact List.mem_singleton_self c⟩)

theorem startText_eq (t : Tag) :
    t.startText = '<' :: (t.name ++ (t.attrs.flatMap Attr.text ++ ['>'])) := by
  simp [Tag.startText, Tag.content]

theorem xmlText_of_startText {t : Tag} {name value : Text} (h : XmlText t.startText)
    (member : Attr.of name value ∈ t.attrs) : XmlText value := by
  refine xmlText_of_escapeAttr (h.subset fun c hc => ?_)
  have inside : c ∈ t.attrs.flatMap Attr.text :=
    List.mem_flatMap.2 ⟨_, member, by simp [Attr.text, Attr.of, hc]⟩
  rw [startText_eq]
  simp [inside]

end FieldMap.Markup

namespace FieldMap.Stylesheet

open Markup (Attr Tag)
open Xml

section Attributes

variable (version : Text) (own : List (Text × Text)) (table : Namespaces)

/-- The prefix is one that the sheet needs for itself, or one of the table that is neither reserved
nor among these. -/
def Declares (p uri : Text) : Prop :=
  (p, uri) ∈ own ∨ (p, uri) ∈ table.entries ∧ p ≠ Namespaces.defaultKey ∧ p ≠ "xsl".toList ∧
    ∀ e ∈ own, e.1 ≠ p

/-- The attributes that the outermost tag is to have, beside the list of the declared prefixes. -/
inductive HasAttribute : QName → Text → Prop where
  | version : HasAttribute ⟨[], "version"⟩ version
  | instructions : HasAttribute ⟨"xmlns", "xsl"⟩ xslUri
  | declared {p uri : Text} : Declares own table p uri → HasAttribute ⟨"xmlns", p⟩ uri
  | default {uri : Text} : (Namespaces.defaultKey, uri) ∈ table.entries →
      HasAttribute ⟨[], "xmlns"⟩ uri

def excludedName : QName :=
  ⟨[], "exclude-result-prefixes"⟩

/-- The attributes of the outermost tag, each once. Declared prefixes, if there are any, are also
listed to be kept out of the result. -/
structure HeaderAttributes (values : List (QName × Text)) : Prop where
  distinct : (values.map (·.1)).Nodup
  attributes : ∀ name value, name ≠ excludedName →
    ((name, value) ∈ values ↔ HasAttribute version own table name value)
  excluded : (∃ listed, (excludedName, listed) ∈ values) ↔ ∃ p uri, Declares own table p uri
  listed : ∀ listed, (excludedName, listed) ∈ values → (List.splitOn ' ' listed).Nodup ∧
    ∀ p, p ∈ List.splitOn ' ' listed ↔ ∃ uri, Declares own table p uri

/-- The outermost tag is read as one start tag, and its values as these attributes. -/
def HeaderReads : Prop :=
  XmlText (headerTag version own table).startText ∧
    ∃ attrs values,
      tokens? (headerTag version own table).startText =
        some [.startTag ⟨"xsl", "stylesheet"⟩ attrs false] ∧
      values? attrs = some values ∧ HeaderAttributes version own table values

end Attributes

section Header

variable {version : Text} {own : List (Text × Text)} {table : Namespaces}

theorem declares_iff {p uri : Text} : Declares own table p uri ↔ (p, uri) ∈ declared own table :=
  mem_declared_iff.symm

theorem defaultUri?_eq_some_iff {uri : Text} :
    table.defaultUri? = some uri ↔ (Namespaces.defaultKey, uri) ∈ table.entries := by
  rw [Namespaces.defaultUri?, Option.map_eq_some_iff]
  constructor
  · rintro ⟨e, found, rfl⟩
    have key : e.1 = Namespaces.defaultKey := by simpa using List.find?_some found
    rw [← key]
    exact List.mem_of_find?_eq_some found
  · intro member
    have isSome : (table.entries.find? (·.1 = Namespaces.defaultKey)).isSome = true :=
      List.find?_isSome.2 ⟨_, member, decide_eq_true rfl⟩
    obtain ⟨e, found⟩ := Option.isSome_iff_exists.1 isSome
    have key : e.1 = Namespaces.defaultKey := by simpa using List.find?_some found
    have same := List.inj_on_of_nodup_map table.nodup_names (List.mem_of_find?_eq_some found) member key
    exact ⟨e, found, by rw [same]⟩

theorem mem_headerValues_iff {name : QName} {value : Text} (other : name ≠ excludedName) :
    (name, value) ∈ headerValues version own table ↔ HasAttribute version own table name value := by
  have excluded : (name, value) ∉ headerExcluded own table := fun member =>
    other (plain_headerExcluded own table _ member)
  simp only [headerValues, headerDeclarations, List.map_cons, List.mem_cons, List.mem_append,
    List.mem_map, Option.mem_toList, Option.map_eq_some_iff, or_iff_left excluded, Prod.mk.injEq,
    defaultUri?_eq_some_iff]
  constructor
  · rintro (⟨rfl, rfl⟩ | (⟨rfl, rfl⟩ | ⟨e, member, rfl, rfl⟩) | ⟨uri, member, rfl, rfl⟩)
    · exact .version
    · exact .instructions
    · exact .declared (declares_iff.2 member)
    · exact .default member
  · rintro (_ | _ | member | member)
    · exact Or.inl ⟨rfl, rfl⟩
    · exact Or.inr (Or.inl (Or.inl ⟨rfl, rfl⟩))
    · exact Or.inr (Or.inl (Or.inr ⟨_, declares_iff.1 member, rfl, rfl⟩))
    · exact Or.inr (Or.inr ⟨_, member, rfl, rfl⟩)

theorem mem_headerValues_excludedName_iff {listed : Text} :
    (excludedName, listed) ∈ headerValues version own table ↔
      declared own table ≠ [] ∧ listed = List.intercalate " " ((declared own table).map (·.1)) := by
  have declares : (excludedName, listed) ∉ headerDeclarations own table := by
    intro member
    have declaration : isDeclaration excludedName = true :=
      isDeclaration_headerDeclarations own table _ member
    exact absurd declaration (by decide)
  rw [headerValues, List.mem_cons, List.mem_append, or_iff_right declares, headerExcluded, Prod.mk.injEq,
    or_iff_right fun both => absurd both.1 (by decide)]
  cases declared own table with
  | nil => simp
  | cons e spaces => simp [excludedName]

theorem nodup_headerDeclarations (h : Declarable own) :
    ((headerDeclarations own table).map (·.1)).Nodup := by
  have prefixes := nodup_instructions (nodup_declared h.distinct table)
    (ne_xsl_of_mem_declared h.not_xsl)
  have spaces := prefixes.map (f := QName.mk "xmlns") fun a b same => (QName.mk.inj same).2
  rw [headerDeclarations, List.map_append, List.nodup_append, List.map_map]
  rw [List.map_map] at spaces
  refine ⟨spaces, ?_, ?_⟩
  · cases table.defaultUri? <;> simp
  · intro a ha b hb
    obtain ⟨e, -, rfl⟩ := List.mem_map.1 ha
    obtain ⟨v, hv, rfl⟩ := List.mem_map.1 hb
    obtain ⟨uri, -, rfl⟩ := Option.map_eq_some_iff.1 (Option.mem_toList.1 hv)
    intro same
    exact absurd (QName.mk.inj same).1 (by decide)

theorem nodup_headerValues (h : Declarable own) :
    ((headerValues version own table).map (·.1)).Nodup := by
  have declaration : ∀ name ∈ (headerDeclarations own table).map (·.1), isDeclaration name = true :=
    List.forall_mem_map.2 (isDeclaration_headerDeclarations own table)
  have excluded : ∀ name ∈ (headerExcluded own table).map (·.1), name = excludedName :=
    List.forall_mem_map.2 (plain_headerExcluded own table)
  have version_name : QName.mk [] "version" ∉
      (headerDeclarations own table).map (·.1) ++ (headerExcluded own table).map (·.1) := by
    rw [List.mem_append]
    rintro (member | member)
    · exact absurd (declaration _ member) (by decide)
    · exact absurd (excluded _ member) (by decide)
  rw [headerValues, List.map_cons, List.map_append, List.nodup_cons, List.nodup_append]
  refine ⟨version_name, nodup_headerDeclarations h, ?_, ?_⟩
  · rw [headerExcluded]
    split <;> simp
  · rintro name member _ other rfl
    rw [excluded name other] at member
    exact absurd (declaration _ member) (by decide)

theorem headerAttributes_headerValues (h : Declarable own)
    (names : ∀ e ∈ declared own table, IsNCName e.1) :
    HeaderAttributes version own table (headerValues version own table) where
  distinct := nodup_headerValues h
  attributes := fun _ _ other => mem_headerValues_iff other
  excluded := by
    simp only [mem_headerValues_excludedName_iff, declares_iff, exists_and_left, exists_eq, and_true]
    rw [← Prod.exists (p := (· ∈ declared own table))]
    exact ⟨List.exists_mem_of_ne_nil _, fun ⟨_, member⟩ => List.ne_nil_of_mem member⟩
  listed := by
    intro listed member
    obtain ⟨some_space, rfl⟩ := mem_headerValues_excludedName_iff.1 member
    have unspaced : ∀ t ∈ (declared own table).map (·.1), ' ' ∉ t := by
      refine List.forall_mem_map.2 fun e he blank => ?_
      exact absurd ((names e he).chars ' ' blank) (by decide)
    have split : List.splitOn ' ' (List.intercalate " " ((declared own table).map (·.1))) =
        (declared own table).map (·.1) :=
      List.splitOn_intercalate _ unspaced (mt List.map_eq_nil_iff.1 some_space)
    rw [split]
    refine ⟨nodup_declared h.distinct table, fun p => ?_⟩
    rw [List.mem_map, Prod.exists]
    simp [declares_iff]

theorem HeaderReads.isNCName {p uri : Text} (h : HeaderReads version own table)
    (declares : Declares own table p uri) : IsNCName p := by
  obtain ⟨-, attrs, values, tokens, read, spec⟩ := h
  have member : (QName.mk "xmlns" p, uri) ∈ values :=
    (spec.attributes _ _ (by simp [excludedName])).2 (.declared declares)
  obtain ⟨a, ha, e⟩ := exists_of_mem_values? read _ member
  have stop : ∀ c ∈ ((headerTag version own table).attrs.flatMap Attr.text ++ ['>']).head?,
      isNameChar c = false := by
    rintro c ⟨⟩
    decide
  rw [Markup.startText_eq] at tokens
  obtain ⟨rest, found⟩ := attrs?_of_tokens? (show IsWord "xsl:stylesheet" by decide) stop tokens
  have name := isNCName_base_of_attrs? found a ha
  rwa [e] at name

theorem headerReads_iff_of_declarable (h : Declarable own) :
    HeaderReads version own table ↔ XmlText version ∧
      (∀ p uri, Declares own table p uri → IsNCName p ∧ XmlText uri) ∧
      ∀ uri, (Namespaces.defaultKey, uri) ∈ table.entries → XmlText uri := by
  constructor
  · intro reads
    have value {name value : Text} (member : Attr.of name value ∈ (headerTag version own table).attrs) :
        XmlText value := Markup.xmlText_of_startText reads.1 member
    refine ⟨?_, ?_, ?_⟩
    · exact value (List.mem_append_left _ (List.mem_append_left _ (List.mem_append_left _
        List.mem_cons_self)))
    · intro p uri declares
      refine ⟨reads.isNCName declares, value (List.mem_append_left _ (List.mem_append_left _
        (List.mem_append_right _ (List.mem_map_of_mem (declares_iff.1 declares)))))⟩
    · intro uri member
      have given : Attr.of "xmlns" uri ∈ (table.defaultUri?.map (Attr.of "xmlns")).toList := by
        rw [defaultUri?_eq_some_iff.2 member]
        exact List.mem_singleton_self _
      exact value (List.mem_append_left _ (List.mem_append_right _ given))
  · rintro ⟨version_text, legal, default_text⟩
    have names : ∀ e ∈ declared own table, IsNCName e.1 := fun e he =>
      (legal e.1 e.2 (declares_iff.2 he)).1
    refine ⟨(xmlText_headerTag names (fun e he => (legal e.1 e.2 (declares_iff.2 he)).2)
      (fun uri named => default_text uri (defaultUri?_eq_some_iff.1 named)) version_text).1, ?_⟩
    have tokens := Markup.reads_startText (readable_headerTag names version) []
    have values := Markup.values?_ofPairs "xsl:stylesheet" (headerPairs version own table)
    rw [wordName_headerPairs names, ← headerTag_eq names] at values
    rw [List.append_nil, tokens?] at tokens
    exact ⟨_, _, tokens, values, headerAttributes_headerValues h names⟩

end Header

/-- With the prefixes that the sheets need for themselves, none or that of the types, the outermost
tag has the attributes that the table asks for exactly if each declared prefix is a name and no
value has a character that may not stand in a document. -/
theorem headerReads_iff (version : Text) (table : Namespaces) :
    ∀ own ∈ [[], [("xs".toList, schemaUri)]],
      (HeaderReads version own table ↔ XmlText version ∧
        (∀ p uri, Declares own table p uri → IsNCName p ∧ XmlText uri) ∧
        ∀ uri, (Namespaces.defaultKey, uri) ∈ table.entries → XmlText uri) := by
  intro own member
  refine headerReads_iff_of_declarable ?_
  simp only [List.mem_cons, List.not_mem_nil, or_false] at member
  rcases member with rfl | rfl
  · exact declarable_nil
  · exact declarable_schema

/-- A default namespace, a prefix that the sheet declares anyway, and values that are escaped. -/
def orderSpaces : Namespaces :=
  .ofList [("default", "urn:order?a=1&b=2"), ("inv", "urn:\"invoice\""), ("xs", "urn:other")]

theorem orderSpaces_reads :
    [("xs".toList, schemaUri)] ∈ [[], [("xs".toList, schemaUri)]] ∧
      HeaderReads "3.0" [("xs", schemaUri)] orderSpaces := by
  have own : [("xs".toList, schemaUri)] ∈ [[], [("xs".toList, schemaUri)]] := by simp
  have legal : ∀ e ∈ declared [("xs", schemaUri)] orderSpaces, IsNCName e.1 ∧ XmlText e.2 := by
    decide +kernel
  have texts : ∀ e ∈ orderSpaces.entries, XmlText e.2 := by decide +kernel
  refine ⟨own, (headerReads_iff "3.0" orderSpaces _ own).2 ⟨by decide +kernel, ?_, ?_⟩⟩
  · intro p uri declares
    exact legal _ (declares_iff.1 declares)
  · intro uri member
    exact texts _ member

def spacedSpaces : Namespaces :=
  .ofList [("a b", "urn:x")]

/-- The prefix is no name, and what is written is not read as a tag at all. -/
theorem spacedSpaces_not_read :
    tokens? (headerTag "1.0" [] spacedSpaces).startText = none ∧
      ¬ HeaderReads "1.0" [] spacedSpaces := by
  have broken : tokens? (headerTag "1.0" [] spacedSpaces).startText = none := by decide +kernel
  refine ⟨broken, ?_⟩
  rintro ⟨-, attrs, values, tokens, -⟩
  rw [broken] at tokens
  cases tokens

end FieldMap.Stylesheet
