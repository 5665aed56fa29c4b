import FieldMap.Generation
import FieldMap.Proofs.BareMarkup
import FieldMap.Proofs.MarkupTokens
import FieldMap.Proofs.SheetRows

/-!
The columns of a flat stylesheet. The header and the rows of the records come from one list of
columns: its names in order stand in the header, and its values in order, each with what ends it, are
the lines of a record.
-/

namespace FieldMap.Stylesheet.FlatSheet

open Markup Xml

/-- A column: a mapping, and which of its values if it occurs several times. -/
structure Column where
  mapping : Mapping
  position : Option Nat

namespace Column

def ofMapping (m : Mapping) : List Column :=
  if 1 < m.occurrences then (List.range' 1 m.occurrences).map fun i => ⟨m, some i⟩ else [⟨m, none⟩]

def name (c : Column) : Text :=
  let base := c.mapping.effectivePath.map fun x => if x = '/' then '.' else x
  match c.position with
  | none => base
  | some i => base ++ "_" ++ Text.ofNat i

def value (context : Text) (c : Column) : List Markup :=
  valueLines c.mapping context c.position

end Column

theorem occurrences_pos (m : Mapping) : 0 < m.occurrences := by
  rw [Mapping.occurrences]
  omega

theorem map_ofMapping {α : Type} (f : Column → α) (m : Mapping) :
    (Column.ofMapping m).map f =
      if m.occurrences = 1 then [f ⟨m, none⟩]
      else (List.range m.occurrences).map fun i => f ⟨m, some (i + 1)⟩ := by
  have pos := occurrences_pos m
  by_cases single : m.occurrences = 1
  · rw [Column.ofMapping, if_neg (by omega), if_pos single]
    rfl
  · rw [Column.ofMapping, if_pos (by omega), if_neg single, List.range_eq_range', List.range'_eq_map_range,
      List.range_eq_range']
    simp [Nat.add_comm]

theorem columnNames_eq (m : Mapping) : columnNames m = (Column.ofMapping m).map Column.name := by
  rw [map_ofMapping]
  rfl

theorem cells_eq (context : Text) (m : Mapping) :
    cells context m = (Column.ofMapping m).map (Column.value context) := by
  rw [map_ofMapping]
  rfl

theorem ofMapping_ne_nil (m : Mapping) : Column.ofMapping m ≠ [] := by
  have pos := occurrences_pos m
  rw [Column.ofMapping]
  split
  · simp
    omega
  · exact List.cons_ne_nil _ _

theorem headerRow_eq (mappings : List Mapping) (delimiter : Text) :
    headerRow mappings delimiter =
      List.intercalate delimiter ((mappings.flatMap Column.ofMapping).map Column.name) ++ "\n" := by
  rw [headerRow, List.map_flatMap, funext columnNames_eq]

def ending (delimiter : Text) (n k : Nat) : Text :=
  if k + 1 = n then "\n" else delimiter

def endedCells (context delimiter : Text) (columns : List Column) : List (List Markup) :=
  columns.mapIdx fun k c => c.value context ++ [textLine (ending delimiter columns.length k)]

theorem endedCells_singleton (context delimiter : Text) (c : Column) :
    endedCells context delimiter [c] = [c.value context ++ [textLine "\n"]] :=
  rfl

theorem endedCells_cons (context delimiter : Text) (c : Column) {columns : List Column}
    (h : columns ≠ []) :
    endedCells context delimiter (c :: columns) =
      (c.value context ++ [textLine delimiter]) :: endedCells context delimiter columns := by
  have more : columns.length ≠ 0 := by simpa using h
  have first : ending delimiter (columns.length + 1) 0 = delimiter := by
    rw [ending, if_neg (by omega)]
  have shift : ∀ k, ending delimiter (columns.length + 1) (k + 1) = ending delimiter columns.length k := by
    intro k
    simp only [ending, Nat.add_right_cancel_iff]
  simp only [endedCells, List.mapIdx_cons, List.length_cons, first, shift]

theorem endedCells_append (context delimiter : Text) (a : List Column) {b : List Column} (h : b ≠ []) :
    endedCells context delimiter (a ++ b) =
      a.map (fun c => c.value context ++ [textLine delimiter]) ++ endedCells context delimiter b := by
  induction a with
  | nil => rfl
  | cons c a ih =>
    have more : a ++ b ≠ [] := List.append_ne_nil_of_right_ne_nil a h
    rw [List.cons_append, endedCells_cons context delimiter c more, ih, List.map_cons, List.cons_append]

theorem endCells_last (context delimiter : Text) {columns : List Column} (h : columns ≠ []) :
    endCells (textLine delimiter) true (columns.map (Column.value context)) =
      (endedCells context delimiter columns).flatten := by
  induction columns with
  | nil => exact absurd rfl h
  | cons c columns ih =>
    cases columns with
    | nil => simp [endCells, endedCells_singleton]
    | cons d columns =>
      have others := ih (List.cons_ne_nil d columns)
      rw [endedCells_cons context delimiter c (List.cons_ne_nil d columns), List.flatten_cons, ← others]
      rfl

theorem endCells_inner (context delimiter : Text) (columns : List Column) :
    endCells (textLine delimiter) false (columns.map (Column.value context)) =
      (columns.map fun c => c.value context ++ [textLine delimiter]).flatten := by
  induction columns with
  | nil => rfl
  | cons c columns ih =>
    cases columns with
    | nil => simp [endCells]
    | cons d columns =>
      rw [List.map_cons, List.map_cons (l := d :: columns), List.flatten_cons, ← ih]
      rfl

theorem allBare_valueLines (m : Mapping) (context : Text) (position : Option Nat) :
    allBare (valueLines m context position) = valueLines m context position := by
  unfold valueLines
  split
  · rfl
  · simp only
    split <;> rfl
  · simp only
    split <;> rfl

theorem allBare_cell (context : Text) (c : Column) (t : Text) :
    allBare (c.value context ++ [textLine t]) = c.value context ++ [textLine t] := by
  rw [allBare_append, Column.value, allBare_valueLines]
  rfl

theorem allBare_endedCells (context delimiter : Text) (columns : List Column) :
    allBare (endedCells context delimiter columns).flatten =
      (endedCells context delimiter columns).flatten := by
  refine allBare_flatten fun part member => ?_
  obtain ⟨k, hk, rfl⟩ := List.mem_mapIdx.mp member
  exact allBare_cell context _ _

theorem endCells_append (context delimiter : Text) (m : Mapping) (mappings : List Mapping) :
    endCells (textLine delimiter) mappings.isEmpty (cells context m) ++
        (endedCells context delimiter (mappings.flatMap Column.ofMapping)).flatten =
      (endedCells context delimiter ((m :: mappings).flatMap Column.ofMapping)).flatten := by
  rw [cells_eq, List.flatMap_cons]
  cases mappings with
  | nil =>
    rw [List.isEmpty_nil, endCells_last context delimiter (ofMapping_ne_nil m), List.flatMap_nil,
      List.append_nil]
    exact List.append_nil _
  | cons n mappings =>
    have more : (n :: mappings).flatMap Column.ofMapping ≠ [] :=
      List.append_ne_nil_of_left_ne_nil (ofMapping_ne_nil n) _
    rw [List.isEmpty_cons, endCells_inner, endedCells_append context delimiter _ more,
      List.flatten_append]

theorem allBare_endCells (context delimiter : Text) (last : Bool) (m : Mapping) :
    allBare (endCells (textLine delimiter) last (cells context m)) =
      endCells (textLine delimiter) last (cells context m) := by
  rw [cells_eq]
  cases last with
  | true =>
    rw [endCells_last context delimiter (ofMapping_ne_nil m)]
    exact allBare_endedCells context delimiter _
  | false =>
    rw [endCells_inner]
    refine allBare_flatten fun part member => ?_
    obtain ⟨c, _, rfl⟩ := List.mem_map.mp member
    exact allBare_cell context c delimiter

theorem allBare_rowLines (context delimiter : Text) (mappings : List Mapping) :
    allBare (rowLines context (textLine delimiter) mappings) =
      (endedCells context delimiter (mappings.flatMap Column.ofMapping)).flatten := by
  induction mappings with
  | nil => rfl
  | cons m mappings ih =>
    rw [rowLines, List.cons_append, allBare, bare, List.nil_append, allBare_append, allBare_endCells, ih,
      endCells_append]

theorem comments_rowLines (context delimiter : Text) (mappings : List Mapping) :
    (allSteps (rowLines context (textLine delimiter) mappings)).filter Step.isComment =
      mappings.map fun m => .comment (columnNote m) := by
  induction mappings with
  | nil => rfl
  | cons m mappings ih =>
    have none := filter_isComment_eq_nil (allBare_endCells context delimiter mappings.isEmpty m)
    rw [rowLines, List.cons_append, allSteps, steps, List.filter_append, allSteps_append,
      List.filter_append, none, ih]
    rfl

theorem columns_sheetRows (fields : List Mapping) :
    columns (sheetRows fields) =
      (Prepared.ofFields fields).mappings.filter fun m => !m.isPlaceholder && !m.isComponent := by
  -- Placeholders have no columns, so the columns are those of the prepared rows.
  have filled : columns ((Target.gaps (Prepared.ofFields fields).mappings).map Mapping.placeholder) =
      [] := by
    rw [columns, List.filter_eq_nil_iff]
    intro m member
    obtain ⟨path, _, rfl⟩ := List.mem_map.mp member
    simp [Mapping.placeholder]
  rw [sheetRows, Target.complete, columns, List.filter_append]
  exact (congrArg (List.filter _ _ ++ ·) filled).trans (List.append_nil _)

def frame (set : MappingSet) (options : Options) (heading : Text) (row : List Step) : List Step :=
  [.line declaration,
    .start (header set options).startText,
    .line outputTag.emptyText,
    .start (templateTag "/").startText,
    .line heading,
    .line (instruction "xsl:apply-templates" "select" (root set)).emptyText,
    .finish "</xsl:template>",
    .start (templateTag (record set)).startText] ++ row ++
  [.finish "</xsl:template>",
    .line "<xsl:template match=\"text()\"/>",
    .finish "</xsl:stylesheet>"]

theorem stylesheet_eq (set : MappingSet) (options : Options) :
    (generate .flat set options).stylesheet =
      layout options.indent (frame set options
        (Inline.text (Tag.of "xsl:text")
          (headerRow (columns (sheetRows set.fields)) options.delimiter)).write
        (allSteps (rowLines (context set) (textLine options.delimiter)
          (columns (sheetRows set.fields))))) := by
  have same : sheetSteps (header set options)
      (body set options.delimiter (columns (sheetRows set.fields))) = frame set options
        (Inline.text (Tag.of "xsl:text")
          (headerRow (columns (sheetRows set.fields)) options.delimiter)).write
        (allSteps (rowLines (context set) (textLine options.delimiter)
          (columns (sheetRows set.fields)))) := by
    simp only [sheetSteps, body, frame, steps, allSteps, textLine, Inline.write, List.append_assoc,
      List.cons_append, List.nil_append, List.append_nil]
    rfl
  exact congrArg (layout options.indent) same

def xslText : QName := ⟨"xsl", "text"⟩

/-- A line of text in a template, as it is when it is read. -/
def IsTextLine (line t : Text) : Prop :=
  ∃ written, tokens? line = some [.startTag xslText [] false, .text written, .endTag xslText] ∧
    resolve? plainText written = some t

theorem isTextLine_write {t : Text} (h : t ≠ []) :
    IsTextLine (Inline.text (Tag.of "xsl:text") t).write t := by
  refine ⟨escapeText t, ?_, resolve?_escapeText t⟩
  have readable : (Inline.text (Tag.of "xsl:text") t).Readable :=
    ⟨by decide, by simp [Tag.of]⟩
  have written : escapeText t ≠ [] := by
    intro e
    have resolved := resolve?_escapeText t
    rw [e, resolve?_of_dropWhile_nil rfl] at resolved
    exact h (Option.some.inj resolved).symm
  have read := reads_inline readable []
  rw [List.append_nil, tokens?, Inline.tokens, textTokens, if_neg written] at read
  exact read

def endingLine (delimiter : Text) (n k : Nat) : Step :=
  .line ("<xsl:text>" ++ escapeText (ending delimiter n k) ++ "</xsl:text>")

theorem steps_endedCells (context delimiter : Text) (columns : List Column) :
    allSteps (endedCells context delimiter columns).flatten =
      (columns.mapIdx fun k c =>
        allSteps (c.value context) ++ [endingLine delimiter columns.length k]).flatten := by
  rw [allSteps_flatten, endedCells]
  refine congrArg List.flatten (List.ext_getElem (by simp) fun k hk _ => ?_)
  rw [List.getElem_map, List.getElem_mapIdx, List.getElem_mapIdx, allSteps_append]
  rfl

/-- Header and records of a flat stylesheet line up. The names in the header are those of the columns
in order. The lines of a record are, apart from one comment for each mapping, the values of the same
columns in the same order, each followed by the line that ends it. -/
theorem header_and_records_line_up (set : MappingSet) (options : Options) :
    let mappings := (Prepared.ofFields set.fields).mappings.filter fun m =>
      !m.isPlaceholder && !m.isComponent
    let columns := mappings.flatMap Column.ofMapping
    ∃ heading row,
      (generate .flat set options).stylesheet =
        layout options.indent (frame set options heading row) ∧
      IsTextLine heading (List.intercalate options.delimiter (columns.map Column.name) ++ "\n") ∧
      row.filter Step.isComment = mappings.map (fun m => .comment (columnNote m)) ∧
      row.filter (fun step => !step.isComment) =
        (columns.mapIdx fun k c => allSteps (c.value (context set)) ++
          [endingLine options.delimiter columns.length k]).flatten ∧
      (columns = [] → row = []) := by
  intro mappings columns
  have shown : FlatSheet.columns (sheetRows set.fields) = mappings := columns_sheetRows set.fields
  refine ⟨_, _, stylesheet_eq set options, ?_⟩
  rw [shown, headerRow_eq]
  refine ⟨isTextLine_write (by simp), comments_rowLines _ _ _, ?_, ?_⟩
  · rw [filter_allSteps, allBare_rowLines, steps_endedCells]
  · intro empty
    cases given : mappings with
    | nil => rfl
    | cons m rest =>
      have some : (m :: rest).flatMap Column.ofMapping ≠ [] :=
        List.append_ne_nil_of_left_ne_nil (ofMapping_ne_nil m) _
      exact absurd (given ▸ empty) some

/-- A table with a column that occurs twice and an empty one. -/
def orderTable : MappingSet where
  fields :=
    [{ sourcePath := "//Order/@id", targetName := "Id" },
      { sourcePath := "//Order/Phone", targetName := "Phone", targetPath := some "Contact/Phone",
        occurs := 2 },
      { sourcePath := "//Order/Note", targetName := "Note", valueType := .empty }]

def containerSet : MappingSet where
  fields := [{ sourcePath := "//Order", targetName := "Order", fieldType := .component }]

/-- The empty column has its name and its end, and nothing between. Without columns the header is an
empty line, and a record has no lines. -/
theorem orderTable_header_and_records_line_up :
    (∃ heading row,
      (generate .flat orderTable { delimiter := "&" }).stylesheet =
        layout 2 (frame orderTable { delimiter := "&" } heading row) ∧
      IsTextLine heading "Id&Contact.Phone_1&Contact.Phone_2&Note\n" ∧
      row.filter Step.isComment = [.comment "Id (required)",
        .comment "Contact/Phone (required, 2 occurrences)", .comment "Note (required)"] ∧
      row.filter (fun step => !step.isComment) =
        [.line "<xsl:value-of select=\"@id\"/>", .line "<xsl:text>&amp;</xsl:text>",
          .line "<xsl:value-of select=\"Phone[1]\"/>", .line "<xsl:text>&amp;</xsl:text>",
          .line "<xsl:value-of select=\"Phone[2]\"/>", .line "<xsl:text>&amp;</xsl:text>",
          .line "<xsl:text>&#10;</xsl:text>"]) ∧
    ∃ heading,
      (generate .flat containerSet {}).stylesheet = layout 2 (frame containerSet {} heading []) ∧
      IsTextLine heading "\n" := by
  refine ⟨?_, ?_⟩
  · have shown : (Prepared.ofFields orderTable.fields).mappings.filter (fun m =>
        !m.isPlaceholder && !m.isComponent) = orderTable.fields := by decide +kernel
    have names : List.intercalate "&" ((orderTable.fields.flatMap Column.ofMapping).map Column.name) ++
        "\n" = "Id&Contact.Phone_1&Contact.Phone_2&Note\n" := by decide +kernel
    obtain ⟨heading, row, text, header, comments, lines, -⟩ :=
      header_and_records_line_up orderTable { delimiter := "&" }
    simp only [shown, names] at header comments lines
    exact ⟨heading, row, text, header, comments.trans (by decide +kernel),
      lines.trans (by decide +kernel)⟩
  · have none : (Prepared.ofFields containerSet.fields).mappings.filter (fun m =>
        !m.isPlaceholder && !m.isComponent) = [] := by decide +kernel
    obtain ⟨heading, row, text, header, -, -, empty⟩ := header_and_records_line_up containerSet {}
    rw [none] at header empty
    rw [empty rfl] at text
    exact ⟨heading, text, header⟩

end FieldMap.Stylesheet.FlatSheet
