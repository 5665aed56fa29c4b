import FieldMap.Proofs.MarkupTokens
import FieldMap.Proofs.StringExpressions
import FieldMap.Stylesheet.JsonSheet
import FieldMap.Stylesheet.XmlSheet

/-!
Strings on their way through two kinds of quoting. A string is written as an expression, which uses
quotes, and the expression as the value of an attribute, in which quotes are escaped. Read back in
the other order, an attribute gives the string it was written for: the value of a variable, the key
of an entry and the value of a field with a fixed text. So no two strings share a written form.
-/

namespace FieldMap.Markup

/-- The value that a reader of the document sees: the written text ends at the quote after it, and
its references resolve to the value. -/
def Attr.Shows (a : Attr) (value : Text) : Prop :=
  (∀ rest, Xml.value? ('"' :: (a.written ++ '"' :: rest)) = some (a.written, rest)) ∧
    Xml.resolve? Xml.plainValue a.written = some value

def Attr.Holds (a : Attr) (v : Text) : Prop :=
  ∃ expression, a.Shows expression ∧ XPath.Denotes expression v

/-- A tag has one attribute of a name, which holds a string. -/
def Tag.Gives (t : Tag) (name v : Text) : Prop :=
  ∃ a, t.attrs.filter (·.name = name) = [a] ∧ a.Holds v

def Inline.tag : Inline → Tag
  | .empty tag => tag
  | .text tag _ => tag
  | .around tag _ => tag

theorem shows_of (name value : Text) : (Attr.of name value).Shows value := by
  refine ⟨Xml.value?_quoted ?_, resolve?_escapeAttr value⟩
  intro c hc
  exact ⟨(mem_escapeAttr hc).1, (mem_escapeAttr hc).2.1⟩

theorem holds_stringLiteral (name v : Text) : (Attr.of name (stringLiteral v)).Holds v :=
  ⟨stringLiteral v, shows_of name _, XPath.denotes_stringLiteral v⟩

theorem Attr.Holds.unique {a : Attr} {v w : Text} (first : a.Holds v) (second : a.Holds w) :
    v = w := by
  obtain ⟨e, ⟨_, resolved⟩, denotes⟩ := first
  obtain ⟨f, ⟨_, resolved'⟩, denotes'⟩ := second
  have same : e = f := Option.some_inj.mp (resolved.symm.trans resolved')
  subst same
  exact Option.some_inj.mp (denotes.stringValue?.symm.trans denotes'.stringValue?)

theorem eq_of_written_eq {v w : Text}
    (h : escapeAttr (stringLiteral v) = escapeAttr (stringLiteral w)) : v = w := by
  have same : Attr.of [] (stringLiteral v) = Attr.of [] (stringLiteral w) := by
    rw [Attr.of, h, Attr.of]
  have first := holds_stringLiteral [] v
  rw [same] at first
  exact first.unique (holds_stringLiteral [] w)

end FieldMap.Markup

namespace FieldMap.Stylesheet

open Markup (Attr Tag Inline)

theorem XmlSheet.variableLine_literal (name v : Text) :
    ∃ tag, variableLine ⟨name, .literal v⟩ = .line (.empty tag) ∧ tag.name = "xsl:variable".toList ∧
      tag.Gives "select" v :=
  ⟨_, rfl, rfl, _, rfl, Markup.holds_stringLiteral _ v⟩

theorem valueSource_hardcoded {m : Mapping} (h : m.valueType = .hardcoded) (context : Context) :
    valueSource m context = .literal (m.hardcodedValue.getD []) := by
  simp only [valueSource, h]

namespace JsonSheet

theorem entryTag_gives (v : Text) : (entryTag v).Gives "key" v :=
  ⟨_, rfl, Markup.holds_stringLiteral _ v⟩

theorem selectEntry_gives_key (v select : Text) : (selectEntry v select).tag.Gives "key" v :=
  ⟨_, rfl, Markup.holds_stringLiteral _ v⟩

theorem entry_gives_key (mode : JsonValues) (v : Text) (m : Mapping) (context : Context) :
    (entry mode v m context).tag.Gives "key" v := by
  rw [entry]
  cases valueSource m context with
  | literal text => exact selectEntry_gives_key v _
  | empty => exact selectEntry_gives_key v _
  | select expression =>
    cases mode with
    | direct => exact entryTag_gives v
    | typed => exact selectEntry_gives_key v _

theorem entry_hardcoded {m : Mapping} (h : m.valueType = .hardcoded) (mode : JsonValues)
    (name : Text) (context : Context) :
    ∃ tag, entry mode name m context = .empty tag ∧ tag.name = "xsl:map-entry".toList ∧
      tag.Gives "select" (m.hardcodedValue.getD []) := by
  rw [entry, valueSource_hardcoded h]
  exact ⟨_, rfl, rfl, _, rfl, Markup.holds_stringLiteral _ _⟩

theorem member_hardcoded {m : Mapping} (h : m.valueType = .hardcoded) (mode : JsonValues)
    (context : Context) :
    ∃ tag, member mode m context = .empty tag ∧ tag.name = "xsl:sequence".toList ∧
      tag.Gives "select" (m.hardcodedValue.getD []) := by
  rw [member, valueSource_hardcoded h]
  exact ⟨_, rfl, rfl, _, rfl, Markup.holds_stringLiteral _ _⟩

end JsonSheet

/-- A string is kept by both kinds of quoting, and so wherever a sheet writes a string of its own. -/
theorem quoted_string_is_kept (v : Text) :
    XPath.Denotes (Markup.stringLiteral v) v ∧
      XPath.stringValue? (Markup.stringLiteral v) = some v ∧
      Xml.resolve? Xml.plainValue (Markup.escapeAttr (Markup.stringLiteral v)) =
        some (Markup.stringLiteral v) ∧
      (∀ w, Markup.escapeAttr (Markup.stringLiteral v) =
        Markup.escapeAttr (Markup.stringLiteral w) → v = w) ∧
      (∀ name, ∃ tag, XmlSheet.variableLine ⟨name, .literal v⟩ = .line (.empty tag) ∧
        tag.name = "xsl:variable".toList ∧ tag.Gives "select" v) ∧
      (JsonSheet.entryTag v).Gives "key" v ∧
      (∀ mode m context, (JsonSheet.entry mode v m context).tag.Gives "key" v) ∧
      ∀ m : Mapping, m.valueType = .hardcoded → m.hardcodedValue.getD [] = v → ∀ mode context,
        (∀ name, ∃ tag, JsonSheet.entry mode name m context = .empty tag ∧
          tag.name = "xsl:map-entry".toList ∧ tag.Gives "select" v) ∧
        ∃ tag, JsonSheet.member mode m context = .empty tag ∧
          tag.name = "xsl:sequence".toList ∧ tag.Gives "select" v := by
  refine ⟨XPath.denotes_stringLiteral v, XPath.stringValue?_stringLiteral v,
    Markup.resolve?_escapeAttr _, fun w => Markup.eq_of_written_eq,
    fun name => XmlSheet.variableLine_literal name v, JsonSheet.entryTag_gives v,
    fun mode m context => JsonSheet.entry_gives_key mode v m context, ?_⟩
  intro m fixed value mode context
  subst value
  exact ⟨fun name => JsonSheet.entry_hardcoded fixed mode name context,
    JsonSheet.member_hardcoded fixed mode context⟩

def sizeNote : Text := "'5''6\" & up\n'"

def sizeMapping : Mapping where
  sourcePath := "//item"
  targetName := "size"
  valueType := .hardcoded
  hardcodedValue := some sizeNote

theorem sizeNote_is_kept :
    Markup.escapeAttr (Markup.stringLiteral sizeNote) =
        ("concat('', &quot;'&quot;, '5', &quot;'&quot;, '', &quot;'&quot;, '6&quot; &amp; up&#10;', " ++
          "&quot;'&quot;, '')").toList ∧
      sizeMapping.valueType = .hardcoded ∧
      sizeNote = sizeMapping.hardcodedValue.getD [] ∧
      ∃ tag, JsonSheet.member .typed sizeMapping none = .empty tag ∧
        tag.name = "xsl:sequence".toList ∧ tag.Gives "select" sizeNote := by
  obtain ⟨_, _, _, injective, _, _, _, fixed⟩ := quoted_string_is_kept sizeNote
  exact ⟨by decide, rfl, injective _ rfl, (fixed sizeMapping rfl rfl .typed none).2⟩

end FieldMap.Stylesheet
