import FieldMap.Proofs.CommentText
import FieldMap.Proofs.TargetNodes
import FieldMap.Proofs.XmlCharacters
import FieldMap.Prepare

/-!
The rows that reach a stylesheet. Each is a field of the table with its paths in normal form, or a
placeholder for the beginning of a field's target path. So what is asked of the texts and the names
of the fields holds of the rows as well, and of every node of the tree that is built from them.
-/

namespace FieldMap

open Xml Markup

def sheetRows (fields : List Mapping) : List Mapping :=
  Target.complete (Prepared.ofFields fields).mappings

namespace Prepared

/-- The field of the table behind a prepared row. -/
structure Stems (f m : Mapping) : Prop where
  sourcePath : m.sourcePath = (Path.normalize f.sourcePath).path
  forEachPath : m.forEachPath = f.forEachPath ∨
    ∃ path, f.forEach = some path ∧ m.forEachPath = some (Path.normalize path).path
  targetName : m.targetName = f.targetName
  targetPath : m.targetPath = f.targetPath
  attributes : m.attributes = f.attributes
  hardcodedValue : m.hardcodedValue = f.hardcodedValue

theorem stems_of_row {number : Nat} {f m : Mapping} (h : (row number f).1 = some m) : Stems f m := by
  unfold row at h
  split at h
  · cases h
  · split at h
    · cases h
      exact ⟨rfl, Or.inl rfl, rfl, rfl, rfl, rfl⟩
    · next path loop =>
      cases h
      exact ⟨rfl, Or.inr ⟨path, loop, rfl⟩, rfl, rfl, rfl, rfl⟩

theorem exists_of_mem_rows {number : Nat} {fields : List Mapping}
    {r : Option Mapping × List Diagnostic} (h : r ∈ rows number fields) :
    ∃ f ∈ fields, ∃ n, r = row n f := by
  induction fields generalizing number with
  | nil => cases h
  | cons f fields ih =>
    rcases List.mem_cons.1 h with rfl | h
    · exact ⟨f, List.mem_cons_self, number, rfl⟩
    · obtain ⟨g, hg, found⟩ := ih h
      exact ⟨g, List.mem_cons_of_mem _ hg, found⟩

theorem exists_stem {fields : List Mapping} {m : Mapping} (h : m ∈ (ofFields fields).mappings) :
    ∃ f ∈ fields, Stems f m := by
  obtain ⟨r, hr, some⟩ := List.mem_filterMap.1 h
  obtain ⟨f, hf, n, rfl⟩ := exists_of_mem_rows hr
  exact ⟨f, hf, stems_of_row some⟩

theorem Stems.segments {f m : Mapping} (h : Stems f m) : m.segments = f.segments := by
  rw [Mapping.segments, Mapping.segments, Mapping.effectivePath, Mapping.effectivePath, h.targetName,
    h.targetPath]

end Prepared

namespace Target

theorem mem_properInits {α : Type} {init names : List α} :
    init ∈ properInits names ↔ init ≠ [] ∧ init <+: names ∧ init ≠ names := by
  fun_induction properInits names generalizing init with
  | case1 a b rest ih =>
    rw [List.mem_cons, List.mem_map]
    constructor
    · rintro (rfl | ⟨shorter, hs, rfl⟩)
      · exact ⟨by simp, by simp, by simp⟩
      · obtain ⟨-, inside, short⟩ := ih.mp hs
        exact ⟨by simp, (List.prefix_cons_inj a).mpr inside, by simpa using short⟩
    · rintro ⟨ne, inside, short⟩
      obtain ⟨first, others, rfl⟩ := List.exists_cons_of_ne_nil ne
      obtain ⟨rfl, inner⟩ := List.cons_prefix_cons.mp inside
      by_cases only : others = []
      · exact Or.inl (by rw [only])
      · exact Or.inr ⟨others, ih.mpr ⟨only, inner, by simpa using short⟩, rfl⟩
  | case2 names short =>
    refine iff_of_false List.not_mem_nil ?_
    rintro ⟨ne, inside, different⟩
    -- A list with at most one element has no other beginning than the empty one and itself.
    match names, short with
    | [], _ => exact ne (List.prefix_nil.mp inside)
    | [a], _ =>
      obtain ⟨first, others, rfl⟩ := List.exists_cons_of_ne_nil ne
      obtain ⟨rfl, inner⟩ := List.cons_prefix_cons.mp inside
      exact different (by rw [List.prefix_nil.mp inner])
    | a :: b :: rest, short => exact short a b rest rfl

theorem mem_complete {ms : List Mapping} {m : Mapping} (h : m ∈ complete ms) :
    m ∈ ms ∨ ∃ f ∈ ms, ∃ names, names ≠ [] ∧ names <+: f.segments ∧
      m = Mapping.placeholder (pathText names) := by
  rcases List.mem_append.1 h with given | filled
  · exact Or.inl given
  · obtain ⟨path, hpath, rfl⟩ := List.mem_map.1 filled
    rw [gaps, mem_distinct] at hpath
    obtain ⟨f, hf, needed⟩ := List.mem_flatMap.1 (List.mem_of_mem_filter hpath)
    obtain ⟨names, hnames, rfl⟩ := List.mem_map.1 needed
    obtain ⟨ne, inside, -⟩ := mem_properInits.mp hnames
    exact Or.inr ⟨f, hf, names, ne, inside, rfl⟩

end Target

theorem mem_sheetRows {fields : List Mapping} {m : Mapping} (h : m ∈ sheetRows fields) :
    ∃ f ∈ fields, Prepared.Stems f m ∨ ∃ names, names ≠ [] ∧ names <+: f.segments ∧
      m = Mapping.placeholder (Target.pathText names) := by
  rcases Target.mem_complete h with given | ⟨g, hg, names, ne, inside, rfl⟩
  · obtain ⟨f, hf, stems⟩ := Prepared.exists_stem given
    exact ⟨f, hf, Or.inl stems⟩
  · obtain ⟨f, hf, stems⟩ := Prepared.exists_stem hg
    rw [stems.segments] at inside
    exact ⟨f, hf, Or.inr ⟨names, ne, inside, rfl⟩⟩

section Targets

structure Mapping.Targets (P : Text → Prop) (m : Mapping) : Prop where
  targetName : P m.targetName
  targetPath : ∀ path ∈ m.targetPath, P path

instance (P : Text → Prop) [DecidablePred P] (m : Mapping) : Decidable (m.Targets P) :=
  decidable_of_iff (P m.targetName ∧ ∀ path ∈ m.targetPath, P path)
    ⟨fun h => ⟨h.1, h.2⟩, fun h => ⟨h.targetName, h.targetPath⟩⟩

/-- A property that passes to the parts of a text, and to a path from its names. -/
structure PathLike (P : Text → Prop) : Prop where
  part : ∀ {t u}, P t → u <:+: t → P u
  joined : ∀ {names}, (∀ name ∈ names, P name) → P (Target.pathText names)

variable {P : Text → Prop} (like : PathLike P) {m : Mapping}

include like

theorem PathLike.effectivePath (h : m.Targets P) : P m.effectivePath := by
  have name : P (Text.trim m.targetName) := like.part h.targetName (Text.trim_isInfix _)
  simp only [Mapping.effectivePath]
  split
  · exact name
  · next path given =>
    split
    · exact name
    · have inside : Mapping.stripSlashes (Text.trim path) <:+: path :=
        (Text.dropEndWhile_dropWhile_isInfix _ _ _).trans (Text.trim_isInfix path)
      exact like.part (h.targetPath path given) inside

theorem PathLike.segments (h : m.Targets P) : ∀ name ∈ m.segments, P name := by
  intro name hname
  obtain ⟨piece, hpiece, rfl⟩ := List.mem_map.1 (List.mem_of_mem_filter hname)
  have inside := (Text.trim_isInfix piece).trans (Text.isInfix_of_mem_splitOn hpiece)
  exact like.part (like.effectivePath h) inside

theorem PathLike.placeholder {path : Text} (h : P path) : (Mapping.placeholder path).Targets P where
  targetName := by
    show P (Mapping.lastName path)
    unfold Mapping.lastName
    cases last : (List.splitOn '/' path).getLast? with
    | none => exact like.part h (List.nil_infix)
    | some name => exact like.part h (Text.isInfix_of_mem_splitOn (List.mem_of_getLast? last))
  targetPath := by
    intro p hp
    cases hp
    exact h

theorem PathLike.sheetRows {fields : List Mapping} (h : ∀ f ∈ fields, f.Targets P) :
    ∀ m ∈ sheetRows fields, m.Targets P := by
  intro m hm
  obtain ⟨f, hf, stems | ⟨names, _, inside, rfl⟩⟩ := mem_sheetRows hm
  · have field := h f hf
    exact ⟨stems.targetName ▸ field.targetName, stems.targetPath ▸ field.targetPath⟩
  · refine like.placeholder (like.joined fun name hname => ?_)
    exact like.segments (h f hf) name (inside.subset hname)

end Targets

theorem pathLike_xmlText : PathLike XmlText where
  part := fun h inside => h.subset inside.subset
  joined := fun h => xmlText_intercalate (by decide) h

theorem rowFree_pathText {names : List Text} (h : ∀ name ∈ names, RowFree name) :
    RowFree (Target.pathText names) := by
  unfold Target.pathText
  induction names with
  | nil => decide
  | cons name names ih =>
    rw [List.forall_mem_cons] at h
    cases names with
    | nil =>
      rw [List.intercalate_singleton]
      exact h.1
    | cons next rest =>
      rw [List.intercalate_cons_cons]
      have slash := h.1.append (show RowFree "/" by decide) (Or.inr (by decide))
      refine slash.append (ih h.2) (Or.inl ?_)
      simp

theorem pathLike_rowFree : PathLike RowFree where
  part := RowFree.of_infix
  joined := rowFree_pathText

theorem exists_of_mem_segments {fields : List Mapping} {m : Mapping} (hm : m ∈ sheetRows fields)
    {name : Text} (hname : name ∈ m.segments) : ∃ f ∈ fields, name ∈ f.segments := by
  obtain ⟨f, hf, stems | ⟨names, ne, inside, rfl⟩⟩ := mem_sheetRows hm
  · exact ⟨f, hf, stems.segments ▸ hname⟩
  · have each : ∀ t ∈ names, Target.IsName t :=
      fun t ht => Target.isName_of_mem_segments (inside.subset ht)
    rw [Target.segments_placeholder each ne] at hname
    exact ⟨f, hf, inside.subset hname⟩

theorem attributes_of_mem_sheetRows {fields : List Mapping} {m : Mapping} (hm : m ∈ sheetRows fields) :
    m.attributes = [] ∨ ∃ f ∈ fields, m.attributes = f.attributes := by
  obtain ⟨f, hf, stems | ⟨names, _, _, rfl⟩⟩ := mem_sheetRows hm
  · exact Or.inr ⟨f, hf, stems.attributes⟩
  · exact Or.inl rfl

def Attribute.Value.content : Attribute.Value → Text
  | .hardcoded text => text
  | .variable name => name
  | .xpath expression => expression

def Attribute.texts (a : Attribute) : List Text :=
  [a.name, a.value.content]

def Variable.Value.content : Variable.Value → Text
  | .literal text => text
  | .xpath expression => expression

def Variable.texts (v : Variable) : List Text :=
  [v.name, v.value.content]

def Mapping.texts (m : Mapping) : List Text :=
  [m.sourcePath, m.targetName] ++ m.targetPath.toList ++ m.attributes.flatMap Attribute.texts ++
    m.hardcodedValue.toList ++ m.forEachPath.toList

structure Mapping.XmlTexts (m : Mapping) : Prop where
  targets : m.Targets XmlText
  sourcePath : XmlText m.sourcePath
  forEachPath : ∀ path ∈ m.forEachPath, XmlText path
  hardcodedValue : ∀ text ∈ m.hardcodedValue, XmlText text
  attributes : ∀ a ∈ m.attributes, ∀ t ∈ a.texts, XmlText t

theorem Mapping.xmlTexts_of_texts {m : Mapping} (h : ∀ t ∈ m.texts, XmlText t) : m.XmlTexts := by
  simp only [Mapping.texts, List.forall_mem_append, List.forall_mem_cons, Option.mem_toList] at h
  obtain ⟨⟨⟨⟨⟨source, name, -⟩, path⟩, attributes⟩, value⟩, loop⟩ := h
  refine ⟨⟨name, path⟩, source, loop, value, ?_⟩
  intro a ha t ht
  exact attributes t (List.mem_flatMap_of_mem ha ht)

theorem Mapping.XmlTexts.forEach {m : Mapping} (h : m.XmlTexts) : ∀ path ∈ m.forEach, XmlText path := by
  intro path hpath
  obtain ⟨given, hgiven, trimmed⟩ := Option.bind_eq_some_iff.1 hpath
  exact (h.forEachPath given hgiven).nonBlank? trimmed

theorem xmlTexts_placeholder {path : Text} (h : XmlText path) : (Mapping.placeholder path).XmlTexts where
  targets := pathLike_xmlText.placeholder h
  sourcePath := by
    refine (show XmlText "//" by decide).append fun c hc => ?_
    obtain ⟨d, hd, rfl⟩ := List.mem_map.1 hc
    split
    · decide
    · exact h d hd
  forEachPath := by simp [Mapping.placeholder]
  hardcodedValue := by simp [Mapping.placeholder]
  attributes := by simp [Mapping.placeholder]

theorem Prepared.Stems.xmlTexts {f m : Mapping} (stems : Prepared.Stems f m) (h : f.XmlTexts) :
    m.XmlTexts where
  targets := ⟨stems.targetName ▸ h.targets.targetName, stems.targetPath ▸ h.targets.targetPath⟩
  sourcePath := stems.sourcePath ▸ Path.xmlText_normalize h.sourcePath
  forEachPath := by
    rcases stems.forEachPath with same | ⟨path, loop, normal⟩
    · rw [same]
      exact h.forEachPath
    · rw [normal]
      intro p hp
      cases hp
      exact Path.xmlText_normalize (h.forEach path loop)
  hardcodedValue := stems.hardcodedValue ▸ h.hardcodedValue
  attributes := stems.attributes ▸ h.attributes

theorem xmlTexts_sheetRows {fields : List Mapping} (h : ∀ f ∈ fields, f.XmlTexts) :
    ∀ m ∈ sheetRows fields, m.XmlTexts := by
  intro m hm
  obtain ⟨f, hf, stems | ⟨names, _, inside, rfl⟩⟩ := mem_sheetRows hm
  · exact stems.xmlTexts (h f hf)
  · refine xmlTexts_placeholder (pathLike_xmlText.joined fun name hname => ?_)
    exact pathLike_xmlText.segments (h f hf).targets name (inside.subset hname)

namespace Target

mutual

def Node.Every (P : Text → List Row → Prop) : Node → Prop
  | .component name _ rows children => P name rows ∧ Every P children
  | .leaf name _ rows => P name rows

def Every (P : Text → List Row → Prop) : List Node → Prop
  | [] => True
  | n :: ns => n.Every P ∧ Every P ns

end

theorem every_iff {P : Text → List Row → Prop} {ns : List Node} :
    Every P ns ↔ ∀ n ∈ ns, n.Every P :=
  Trees.iff_forall trivial (fun _ _ => Iff.rfl) ns

theorem every_mkNode {P : Text → List Row → Prop} {name : Text} {level : Nat} {rows : List Row}
    {children : List Node} (own : P name rows) (h : Every P children) :
    (mkNode name level rows children).Every P := by
  unfold mkNode
  split
  · exact ⟨own, h⟩
  · exact own

theorem every_forest {S : Text → Prop} {Q : Row → Prop} (depth level : Nat) {placed : List Placed}
    (h : ∀ p ∈ placed, (∀ name ∈ p.path, S name) ∧ Q p.row) :
    Every (fun name rows => S name ∧ ∀ r ∈ rows, Q r) (forest depth level placed) := by
  induction depth generalizing level placed with
  | zero => trivial
  | succ depth ih =>
    rw [forest, every_iff]
    intro n hn
    obtain ⟨name, hname, rfl⟩ := List.mem_map.1 hn
    refine every_mkNode ⟨?_, ?_⟩ (ih (level + 1) fun p hp => ?_)
    · obtain ⟨p, hp, rest, e⟩ := mem_heads.1 hname
      exact (h p hp).1 name (e ▸ List.mem_cons_self)
    · intro r hr
      obtain ⟨p, hp, found⟩ := List.mem_filterMap.1 hr
      obtain ⟨-, rfl⟩ := Option.ite_some_none_eq_some.1 found
      exact (h p hp).2
    · obtain ⟨-, hp⟩ := mem_below.1 hp
      obtain ⟨path, row⟩ := h _ hp
      exact ⟨fun t ht => path t (List.mem_cons_of_mem _ ht), row⟩

theorem every_build {S : Text → Prop} {Q : Mapping → Prop} {ms : List Mapping}
    (names : ∀ m ∈ ms, ∀ name ∈ m.segments, S name) (rows : ∀ m ∈ ms, Q m) :
    Every (fun name rows => S name ∧ ∀ r ∈ rows, Q r.mapping) (build ms) := by
  refine every_forest _ _ fun p hp => ?_
  rw [place_eq] at hp
  obtain ⟨⟨m, i⟩, hm, rfl⟩ := List.mem_map.1 hp
  have given := List.fst_mem_of_mem_zipIdx hm
  exact ⟨names m given, rows m given⟩

end Target

end FieldMap
