import FieldMap.Generation
import FieldMap.Proofs.MarkupElements
import FieldMap.Proofs.References
import FieldMap.Proofs.SheetDocument
import FieldMap.Proofs.SheetRows
import FieldMap.Proofs.StringExpressions
import FieldMap.Proofs.TargetNodes

/-!
The entries of a stylesheet with JSON output. The elements that its lines form are read as a tree of
map entries, each with the string that its key stands for. That tree is the target tree without the
nodes that only fill a gap, and no map has two entries with one key.
-/

namespace FieldMap.Stylesheet.JsonSheet

open Markup
open Xml (Element IsWord QName RawAttr plainValue resolve? wordName)
open Target (Node Row)

def xsl (base : Text) : QName :=
  ⟨"xsl", base⟩

structure EntryLabel where
  key : Text
  repeated : Bool
deriving DecidableEq

/-- An entry of a map: its key, whether its content is an array over a loop, and the entries in it. -/
abbrev Entry := LabelledTree EntryLabel

def Entry.mk (key : Text) (repeated : Bool) (inner : List Entry) : Entry :=
  .node ⟨key, repeated⟩ inner

def Entry.key : Entry → Text
  | .node label _ => label.key

/-- The string that the key attribute of an element stands for. -/
def keyOf? (attrs : List RawAttr) : Option Text :=
  match attrs.filter (·.name = ⟨[], "key"⟩) with
  | [a] => (resolve? plainValue a.value).bind XPath.stringValue?
  | _ => none

mutual

/-- The names of an element and those in it, down to the next entries. -/
def outline : Element → List QName
  | .mk name _ children => if name = xsl "map-entry" then [] else name :: allOutlines children

def allOutlines : List Element → List QName
  | [] => []
  | e :: es => outline e ++ allOutlines es

end

/-- Whether the content of an entry is an array over a loop; an array in any other place is not
expected. -/
def repeated? (content : List Element) : Option Bool :=
  if xsl "array" ∈ allOutlines content then
    match content with
    | [.mk array _ [.mk loop _ _]] =>
      if array = xsl "array" ∧ loop = xsl "for-each" then some true else none
    | _ => none
  else some false

mutual

def entries? : Element → Option (List Entry)
  | .mk name attrs children =>
    if name = xsl "map-entry" then
      match keyOf? attrs, repeated? children, allEntries? children with
      | some key, some repeated, some inner => some [.mk key repeated inner]
      | _, _, _ => none
    else allEntries? children

def allEntries? : List Element → Option (List Entry)
  | [] => some []
  | e :: es =>
    match entries? e, allEntries? es with
    | some first, some others => some (first ++ others)
    | _, _ => none

end

mutual

def within : Element → List Element
  | .mk name attrs children => .mk name attrs children :: allWithin children

def allWithin : List Element → List Element
  | [] => []
  | e :: es => within e ++ allWithin es

end

/-- The entries directly in each map have different keys. -/
def KeysDistinct (elements : List Element) : Prop :=
  ∀ e ∈ allWithin elements, e.name = xsl "map" →
    ∃ entries, allEntries? e.children = some entries ∧ (entries.map Entry.key).Nodup

/-- Nodes that only fill a gap: leaves whose first row is a placeholder, and components without
children that are defined by one. -/
def isRemoved : Node → Bool
  | .component _ _ rows children => Target.isGap rows && children.isEmpty
  | .leaf _ _ rows => rows.head?.all (·.mapping.isPlaceholder)

mutual

/-- A node as an entry. A component repeats if its defining row does, a leaf if its first row does. -/
def nodeEntry : Node → Entry
  | .component name _ rows children =>
    .mk name ((Target.definition? rows).any (·.mapping.repeats)) (treeEntries children)
  | .leaf name _ rows => .mk name (rows.head?.any (·.mapping.repeats)) []

def treeEntries : List Node → List Entry
  | [] => []
  | n :: ns => if isRemoved n then treeEntries ns else nodeEntry n :: treeEntries ns

end

mutual

def Apart : Node → Prop
  | .component _ _ _ children => (children.map Node.name).Nodup ∧ AllApart children
  | .leaf .. => True

def AllApart : List Node → Prop
  | [] => True
  | n :: ns => Apart n ∧ AllApart ns

end

theorem allApart_iff {ns : List Node} : AllApart ns ↔ ∀ n ∈ ns, Apart n :=
  Trees.iff_forall trivial (fun _ _ => Iff.rfl) ns

theorem nodup_names_forest (depth level : Nat) (placed : List Target.Placed) :
    ((Target.forest depth level placed).map Node.name).Nodup := by
  cases depth with
  | zero => exact List.nodup_nil
  | succ depth =>
    rw [Target.names_forest_succ]
    exact Target.nodup_distinct _

theorem allApart_forest (depth level : Nat) (placed : List Target.Placed) :
    AllApart (Target.forest depth level placed) := by
  induction depth generalizing level placed with
  | zero => trivial
  | succ depth ih =>
    rw [Target.forest, allApart_iff]
    intro n hn
    obtain ⟨name, _, rfl⟩ := List.mem_map.mp hn
    rw [Target.mkNode]
    split
    · exact ⟨nodup_names_forest _ _ _, ih _ _⟩
    · trivial

theorem key_nodeEntry (n : Node) : (nodeEntry n).key = n.name := by
  cases n <;> rfl

theorem keys_treeEntries (ns : List Node) :
    ((treeEntries ns).map Entry.key).Sublist (ns.map Node.name) := by
  induction ns with
  | nil => exact List.Sublist.refl _
  | cons n ns ih =>
    rw [treeEntries, List.map_cons]
    split
    · exact ih.cons _
    · rw [List.map_cons, key_nodeEntry]
      exact ih.cons_cons _

section Elements

variable {a b : List Element}

theorem allOutlines_append : allOutlines (a ++ b) = allOutlines a ++ allOutlines b :=
  Trees.append rfl (fun _ _ => rfl) a b

theorem allWithin_append : allWithin (a ++ b) = allWithin a ++ allWithin b :=
  Trees.append rfl (fun _ _ => rfl) a b

theorem allEntries?_append {x y : List Entry} (ha : allEntries? a = some x)
    (hb : allEntries? b = some y) : allEntries? (a ++ b) = some (x ++ y) := by
  induction a generalizing x with
  | nil =>
    cases ha
    exact hb
  | cons e a ih =>
    rw [allEntries?] at ha
    rw [List.cons_append, allEntries?]
    cases first : entries? e with
    | none => simp [first] at ha
    | some own =>
      cases later : allEntries? a with
      | none => simp [first, later] at ha
      | some others =>
        simp only [first, later, Option.some.injEq] at ha
        subst ha
        simp only [ih later, List.append_assoc]

theorem KeysDistinct.append (ha : KeysDistinct a) (hb : KeysDistinct b) : KeysDistinct (a ++ b) := by
  intro e he
  rw [allWithin_append] at he
  rcases List.mem_append.mp he with inside | inside
  · exact ha e inside
  · exact hb e inside

theorem keysDistinct_nil : KeysDistinct [] := by
  intro e he
  cases he

theorem keysDistinct_element {name : QName} {attrs : List RawAttr} (other : name ≠ xsl "map")
    (h : KeysDistinct a) : KeysDistinct [.mk name attrs a] := by
  intro e he isMap
  rw [allWithin, allWithin, List.append_nil, within, List.mem_cons] at he
  rcases he with rfl | inside
  · exact absurd isMap other
  · exact h e inside isMap

theorem keysDistinct_map {attrs : List RawAttr} {entries : List Entry}
    (read : allEntries? a = some entries) (keys : (entries.map Entry.key).Nodup)
    (h : KeysDistinct a) : KeysDistinct [.mk (xsl "map") attrs a] := by
  intro e he isMap
  rw [allWithin, allWithin, List.append_nil, within, List.mem_cons] at he
  rcases he with rfl | inside
  · exact ⟨entries, read, keys⟩
  · exact h e inside isMap

theorem allEntries?_element {name : QName} {attrs : List RawAttr} (other : name ≠ xsl "map-entry")
    {entries : List Entry} (read : allEntries? a = some entries) :
    allEntries? [.mk name attrs a] = some entries := by
  rw [allEntries?, entries?, if_neg other, read]
  simp [allEntries?]

theorem allOutlines_element {name : QName} {attrs : List RawAttr} (other : name ≠ xsl "map-entry") :
    allOutlines [.mk name attrs a] = name :: allOutlines a := by
  rw [allOutlines, outline, if_neg other, allOutlines, List.append_nil]

end Elements

theorem readable_of {name : Text} (word : IsWord name) : (Tag.of name).Readable :=
  (readable_ofPairs word (List.forall_mem_nil _) : (Tag.ofPairs name []).Readable)

theorem readable_instruction {name attr : Text} (word : IsWord name) (key : IsWord attr)
    (value : Text) : (instruction name attr value).Readable :=
  (readable_ofPairs word (List.forall_mem_singleton.mpr key) :
    (Tag.ofPairs name [(attr, value)]).Readable)

theorem readable_entryTag (name : Text) : (entryTag name).Readable :=
  readable_instruction (by decide) (by decide) _

theorem readable_selectEntry (name select : Text) : (selectEntry name select).Readable :=
  (readable_ofPairs (by decide) (List.forall_mem_cons.mpr
      ⟨(by decide : IsWord "key"), List.forall_mem_singleton.mpr (by decide : IsWord "select")⟩) :
    (Tag.ofPairs "xsl:map-entry" [("key", stringLiteral name), ("select", select)]).Readable)

theorem readable_outputTag : outputTag.Readable :=
  (readable_ofPairs (by decide) (by decide) : (Tag.ofPairs "xsl:output"
    [("method", "json"), ("indent", "yes"), ("encoding", "UTF-8")]).Readable)

theorem keyOf?_keyAttr (name : Text) {others : List RawAttr}
    (h : others.filter (·.name = ⟨[], "key"⟩) = []) :
    keyOf? ((keyAttr name).raw :: others) = some name := by
  have named : (keyAttr name).raw.name = ⟨[], "key"⟩ := (by decide : wordName "key" = _)
  have single : ((keyAttr name).raw :: others).filter (·.name = ⟨[], "key"⟩) =
      [(keyAttr name).raw] := by
    rw [List.filter_cons, if_pos (decide_eq_true named), h]
  have written : (keyAttr name).raw.value = escapeAttr (stringLiteral name) := rfl
  rw [keyOf?, single]
  simp only [written, resolve?_escapeAttr, Option.bind_some, XPath.stringValue?_stringLiteral]

/-- Markup with the given outermost entries, and no array around them. -/
structure Renders (ms : List Markup) (entries : List Entry) : Prop where
  readable : AllReadable (allBare ms)
  read : allEntries? (allElements ms) = some entries
  no_array : xsl "array" ∉ allOutlines (allElements ms)
  distinct : KeysDistinct (allElements ms)

theorem renders_nil : Renders [] [] :=
  ⟨trivial, rfl, List.not_mem_nil, keysDistinct_nil⟩

theorem renders_comment (t : Text) : Renders [.comment t] [] :=
  ⟨trivial, rfl, List.not_mem_nil, keysDistinct_nil⟩

theorem Renders.append {a b : List Markup} {x y : List Entry} (ha : Renders a x)
    (hb : Renders b y) : Renders (a ++ b) (x ++ y) where
  readable := by
    rw [allBare_append, allReadable_append]
    exact ⟨ha.readable, hb.readable⟩
  read := by
    rw [allElements_append]
    exact allEntries?_append ha.read hb.read
  no_array := by
    rw [allElements_append, allOutlines_append, List.mem_append, not_or]
    exact ⟨ha.no_array, hb.no_array⟩
  distinct := by
    rw [allElements_append]
    exact ha.distinct.append hb.distinct

theorem renders_entry {m : Markup} {name : Text} {attrs : List RawAttr} {content : List Element}
    {repeated : Bool} {inner : List Entry} (readable : AllReadable m.bare)
    (element : m.elements = [.mk (xsl "map-entry") ((keyAttr name).raw :: attrs) content])
    (key : attrs.filter (·.name = ⟨[], "key"⟩) = [])
    (array : repeated? content = some repeated) (read : allEntries? content = some inner)
    (distinct : KeysDistinct content) : Renders [m] [.mk name repeated inner] := by
  have elements : allElements [m] =
      [.mk (xsl "map-entry") ((keyAttr name).raw :: attrs) content] := by
    rw [allElements, allElements, element, List.append_nil]
  refine ⟨by rwa [allBare_singleton], ?_, ?_, ?_⟩
  · rw [elements, allEntries?, entries?, if_pos rfl]
    simp [keyOf?_keyAttr name key, array, read, allEntries?]
  · rw [elements, allOutlines, outline, if_pos rfl]
    exact List.not_mem_nil
  · rw [elements]
    exact keysDistinct_element (by decide) distinct

theorem repeated?_of_no_array {content : List Element} (h : xsl "array" ∉ allOutlines content) :
    repeated? content = some false :=
  if_neg h

theorem renders_entryTag {name : Text} {ms : List Markup} {inner : List Entry}
    (h : Renders ms inner) : Renders [.block (entryTag name) ms] [.mk name false inner] :=
  renders_entry ⟨⟨readable_entryTag name, h.readable⟩, trivial⟩ rfl rfl
    (repeated?_of_no_array h.no_array) h.read h.distinct

theorem renders_selectEntry (name select : Text) :
    Renders [.line (selectEntry name select)] [.mk name false []] :=
  renders_entry ⟨readable_selectEntry name select, trivial⟩ rfl rfl
    (repeated?_of_no_array List.not_mem_nil) rfl keysDistinct_nil

def structural : List QName :=
  [xsl "map", xsl "map-entry", xsl "array"]

theorem renders_element {m : Markup} {ms : List Markup} {entries : List Entry} {name : QName}
    {attrs : List RawAttr} (h : Renders ms entries) (readable : AllReadable m.bare)
    (element : m.elements = [.mk name attrs (allElements ms)]) (other : name ∉ structural) :
    Renders [m] entries := by
  have elements : allElements [m] = [.mk name attrs (allElements ms)] := by
    rw [allElements, allElements, element, List.append_nil]
  have noMap : name ≠ xsl "map" := fun eq => other (eq ▸ by decide)
  have noEntry : name ≠ xsl "map-entry" := fun eq => other (eq ▸ by decide)
  have noArray : xsl "array" ≠ name := fun eq => other (eq ▸ by decide)
  refine ⟨by rwa [allBare_singleton], ?_, ?_, ?_⟩
  · rw [elements]
    exact allEntries?_element noEntry h.read
  · rw [elements, allOutlines_element noEntry, List.mem_cons, not_or]
    exact ⟨noArray, h.no_array⟩
  · rw [elements]
    exact keysDistinct_element noMap h.distinct

theorem renders_map {ms : List Markup} {entries : List Entry} (h : Renders ms entries)
    (keys : (entries.map Entry.key).Nodup) : Renders [.block (Tag.of "xsl:map") ms] entries where
  readable := ⟨⟨readable_of (by decide), h.readable⟩, trivial⟩
  read := allEntries?_element (by decide) h.read
  no_array := by
    have outline : allOutlines (allElements [.block (Tag.of "xsl:map") ms]) =
        xsl "map" :: allOutlines (allElements ms) := allOutlines_element (by decide)
    rw [outline, List.mem_cons, not_or]
    exact ⟨by decide, h.no_array⟩
  distinct := keysDistinct_map h.read keys h.distinct

theorem renders_empty {tag : Tag} (readable : tag.Readable) (other : wordName tag.name ∉ structural) :
    Renders [.line (.empty tag)] [] :=
  renders_element renders_nil ⟨readable, trivial⟩ rfl other

theorem renders_block {tag : Tag} {ms : List Markup} {entries : List Entry} (h : Renders ms entries)
    (readable : tag.Readable) (other : wordName tag.name ∉ structural) :
    Renders [.block tag ms] entries :=
  renders_element h ⟨⟨readable, h.readable⟩, trivial⟩ rfl other

theorem renders_forEach {ms : List Markup} {entries : List Entry} (h : Renders ms entries)
    (select : Text) : Renders [.block (instruction "xsl:for-each" "select" select) ms] entries :=
  renders_block h (readable_instruction (by decide) (by decide) select)
    (by decide : wordName "xsl:for-each" ∉ structural)

theorem repeated?_array {attrs loopAttrs : List RawAttr} {content : List Element} :
    repeated? [.mk (xsl "array") attrs [.mk (xsl "for-each") loopAttrs content]] = some true := by
  have inside : xsl "array" ∈
      allOutlines [.mk (xsl "array") attrs [.mk (xsl "for-each") loopAttrs content]] := by
    rw [allOutlines_element (by decide)]
    exact List.mem_cons_self
  exact (if_pos inside).trans (if_pos ⟨rfl, rfl⟩)

theorem renders_array {name path : Text} {context : Context} {body : Context → List Markup}
    {inner : List Entry} (h : Renders (body (some path)) inner) :
    Renders [.block (entryTag name) [array path context body]] [.mk name true inner] := by
  have loop := renders_forEach h (loopSelect path context)
  have array : (Tag.of "xsl:array").Readable := readable_of (by decide)
  exact renders_entry ⟨⟨readable_entryTag name, ⟨array, loop.readable⟩, trivial⟩, trivial⟩ rfl rfl
    repeated?_array (allEntries?_element (by decide) loop.read)
    (keysDistinct_element (by decide) loop.distinct)

theorem renders_valueOf (select : Text) : Renders [.line (valueOf select)] [] :=
  renders_empty (readable_instruction (by decide) (by decide) _)
    (by decide : wordName "xsl:value-of" ∉ structural)

theorem renders_sequence (select : Text) : Renders [.line (sequence select)] [] :=
  renders_empty (readable_instruction (by decide) (by decide) _)
    (by decide : wordName "xsl:sequence" ∉ structural)

theorem renders_member (mode : JsonValues) (m : Mapping) (context : Context) :
    Renders [.line (member mode m context)] [] := by
  rw [member]
  cases valueSource m context with
  | literal text => exact renders_sequence _
  | empty => exact renders_sequence _
  | select expression =>
    cases mode with
    | direct => exact renders_valueOf _
    | typed => exact renders_sequence _

theorem renders_single (mode : JsonValues) (name : Text) (m : Mapping) (context : Context) :
    Renders [.line (entry mode name m context)] [.mk name false []] := by
  rw [entry]
  cases valueSource m context with
  | literal text => exact renders_selectEntry _ _
  | empty => exact renders_selectEntry _ _
  | select expression =>
    cases mode with
    | typed => exact renders_selectEntry _ _
    | direct =>
      have value := renders_valueOf expression
      exact renders_entry ⟨⟨readable_entryTag name, value.readable.1⟩, trivial⟩ rfl rfl
        (repeated?_of_no_array value.no_array) value.read value.distinct

theorem renders_optionalNote (m : Mapping) : Renders (optionalNote m) [] := by
  rw [optionalNote]
  split
  · exact renders_comment _
  · exact renders_nil

theorem renders_leaf (mode : JsonValues) (name : Text) (level : Nat) (rows : List Row)
    (context : Context) :
    Renders (leaf mode name rows context) (treeEntries [.leaf name level rows]) := by
  cases rows with
  | nil => exact renders_nil
  | cons row rows =>
    obtain ⟨index, m⟩ := row
    cases gap : m.isPlaceholder with
    | true =>
      have removed : treeEntries [.leaf name level (⟨index, m⟩ :: rows)] = [] := if_pos gap
      rw [removed, leaf, if_pos gap]
      exact renders_comment _
    | false =>
      have kept : treeEntries [.leaf name level (⟨index, m⟩ :: rows)] = [.mk name m.repeats []] :=
        if_neg (by simp [isRemoved, gap])
      rw [kept, leaf, if_neg (by simp [gap])]
      refine (renders_optionalNote m).append ?_
      cases loop : m.repeats with
      | true =>
        rw [loopPath?, if_pos loop]
        exact renders_array (renders_member mode m _)
      | false =>
        rw [loopPath?, if_neg (by simp [loop])]
        exact renders_single mode name m context

theorem renders_gapNote (gap : Bool) (t : Text) :
    Renders (if gap then [.comment t] else []) [] := by
  cases gap with
  | true => exact renders_comment t
  | false => exact renders_nil

theorem renders_definitionNote (definition : Option Row) :
    Renders ((definition.map fun row => optionalNote row.mapping).getD []) [] := by
  cases definition with
  | none => exact renders_nil
  | some row => exact renders_optionalNote row.mapping

theorem treeEntries_cons (n : Node) (ns : List Node) :
    treeEntries (n :: ns) = treeEntries [n] ++ treeEntries ns := by
  rw [treeEntries, treeEntries]
  split
  · rfl
  · rfl

theorem nodup_keys_treeEntries {ns : List Node} (h : (ns.map Node.name).Nodup) :
    ((treeEntries ns).map Entry.key).Nodup :=
  (keys_treeEntries ns).nodup h

/-- A component is an entry with a map, in an array if its defining row repeats. -/
theorem renders_component {name : Text} {rows : List Row} {children : List Node} {context : Context}
    {body : Context → List Markup} (h : ∀ inner, Renders (body inner) (treeEntries children)) :
    Renders [.block (entryTag name)
      (match (Target.definition? rows).bind fun row => loopPath? row.mapping with
        | some path => [array path context body]
        | none => body context)]
      [.mk name ((Target.definition? rows).any (·.mapping.repeats)) (treeEntries children)] := by
  cases Target.definition? rows with
  | none => exact renders_entryTag (h context)
  | some row =>
    simp only [Option.bind_some, Option.any_some, loopPath?]
    cases row.mapping.repeats with
    | true => exact renders_array (h _)
    | false => exact renders_entryTag (h context)

mutual

theorem renders_node (mode : JsonValues) (n : Node) (h : Apart n) (context : Context) :
    Renders (node mode n context) (treeEntries [n]) := by
  cases n with
  | leaf name level rows => exact renders_leaf mode name level rows context
  | component name level rows children =>
    rw [node]
    cases removed : Target.isGap rows && children.isEmpty with
    | true =>
      have gone : treeEntries [.component name level rows children] = [] := if_pos removed
      rw [gone, if_pos rfl]
      exact renders_gapNote _ _
    | false =>
      have kept : treeEntries [.component name level rows children] =
          [nodeEntry (.component name level rows children)] :=
        if_neg (Bool.eq_false_iff.mp removed)
      rw [kept, nodeEntry, if_neg Bool.false_ne_true]
      -- Siblings have different names, so the map inside the entry has different keys.
      have map : ∀ inner, Renders [.block (Tag.of "xsl:map") (nodes mode children inner)]
          (treeEntries children) := fun inner =>
        renders_map (renders_nodes mode children h.2 inner) (nodup_keys_treeEntries h.1)
      exact ((renders_gapNote _ _).append (renders_definitionNote _)).append (renders_component map)

theorem renders_nodes (mode : JsonValues) (ns : List Node) (h : AllApart ns) (context : Context) :
    Renders (nodes mode ns context) (treeEntries ns) := by
  cases ns with
  | nil => exact renders_nil
  | cons n ns =>
    rw [nodes, treeEntries_cons]
    exact (renders_node mode n h.1 context).append (renders_nodes mode ns h.2 context)

end

theorem renders_body (set : MappingSet) (mode : JsonValues) (rows : List Mapping) :
    Renders (body set mode (Target.build rows)) (treeEntries (Target.build rows)) := by
  have output : Renders [.line (.empty outputTag)] [] := renders_empty readable_outputTag (by decide)
  have entries := renders_nodes mode (Target.build rows) (allApart_forest _ _ _) (some (root set))
  have map := renders_map (renders_forEach entries (root set))
    (nodup_keys_treeEntries (nodup_names_forest _ _ _))
  have template : (templateTag "/").Readable := readable_instruction (by decide) (by decide) _
  exact output.append (renders_block map template (by decide))

def frame (options : Options) (lines : List Step) : List Step :=
  [.line declaration, .start (header options).startText] ++ lines ++ [.finish "</xsl:stylesheet>"]

theorem stylesheet_eq (set : MappingSet) (options : Options) :
    (generate .json set options).stylesheet = layout options.indent (frame options
      (allSteps (body set options.jsonValues (Target.build (sheetRows set.fields))))) :=
  rfl

end FieldMap.Stylesheet.JsonSheet
