import FieldMap.Proofs.SheetRows
import FieldMap.Stylesheet.Sheet

/-!
Markup that all stylesheets share, in a scope that knows the instructions: tags of instructions,
values, loops and choices are plain as soon as the texts of the mapping may stand in a document.
-/

namespace FieldMap.Stylesheet

open Markup (Attr Tag Inline AllPlain)
open Xml

section Values

variable {m : Mapping}

theorem xmlText_loopSelect {path : Text} (h : XmlText path) (context : Context) :
    XmlText (loopSelect path context) := by
  refine XmlText.getD (fun seen hseen => ?_) h
  obtain ⟨c, _, e⟩ := Option.bind_eq_some_iff.1 hseen
  exact Path.xmlText_relativeTo h e

theorem xmlText_valueSelect {path : Text} (h : XmlText path) (context : Context) :
    XmlText (valueSelect (SourcePath.parse path) context) := by
  refine XmlText.getD (fun seen hseen => ?_) (SourcePath.xmlText_valueRef h)
  obtain ⟨c, _, e⟩ := Option.bind_eq_some_iff.1 hseen
  exact Path.xmlText_relativeTo (SourcePath.xmlText_full h) e

theorem xmlText_repetitionPath (h : m.XmlTexts) : XmlText (repetitionPath m) := by
  unfold repetitionPath
  split
  · next path given => exact h.forEach path given
  · rcases SourcePath.parse_parts m.sourcePath with ⟨parent, name, e, inside, _⟩ | ⟨parent, name, e⟩
    · rw [e]
      show XmlText (if parent = [] then ['.'] else parent)
      split
      · decide
      · exact h.sourcePath.subset inside
    · rw [e]
      exact h.sourcePath

theorem xmlText_loopPath? (h : m.XmlTexts) : ∀ path ∈ loopPath? m, XmlText path := by
  intro path hpath
  obtain ⟨-, rfl⟩ := Option.ite_some_none_eq_some.1 hpath
  exact xmlText_repetitionPath h

theorem xmlText_twoDecimals {select : Text} (h : XmlText select) : XmlText (twoDecimals select) :=
  h.between

theorem xmlText_currentDateTime : XmlText currentDateTime := by
  decide

theorem xmlText_missingNote (h : m.XmlTexts) : XmlText (missingNote m) := by
  have name := h.targets.targetName
  unfold missingNote
  split
  · exact name.between
  · exact name.between

def ValueSource.content : ValueSource → Text
  | .literal text => text
  | .empty => []
  | .select expression => expression

theorem xmlText_valueSource (h : m.XmlTexts) (context : Context) :
    XmlText (valueSource m context).content := by
  unfold valueSource
  split
  · exact XmlText.getD h.hardcodedValue (by decide)
  · exact List.forall_mem_nil _
  · exact xmlText_valueSelect h.sourcePath context

end Values

def IsInstruction (name : Text) : Prop :=
  IsWord name ∧ (wordName name).space = "xsl".toList

instance (name : Text) : Decidable (IsInstruction name) :=
  inferInstanceAs (Decidable (_ ∧ _))

def IsAttrName (name : Text) : Prop :=
  IsNCName name ∧ name ≠ "xmlns".toList

instance (name : Text) : Decidable (IsAttrName name) :=
  inferInstanceAs (Decidable (_ ∧ _))

theorem IsAttrName.plain {name value : Text} (h : IsAttrName name) (text : XmlText value) :
    (Attr.of name value).Plain :=
  Attr.plain_of h.1 h.2 text

def Knows (scope : Scope) : Prop :=
  scope.find? "xsl" = some xslUri

section Tags

variable {scope : Scope}

theorem Knows.plain (known : Knows scope) {t : Tag} (name : IsInstruction t.name)
    (attrs : ∀ a ∈ t.attrs, a.Plain) (distinct : (t.attrs.map (·.name)).Nodup) : t.Plain scope where
  word := name.1
  space := by
    rw [name.2, elementSpace?, if_neg (by decide), if_neg (by decide), known]
    rfl
  attrs := attrs
  distinct := distinct

theorem Knows.plain_of (known : Knows scope) {name : Text} (h : IsInstruction name) :
    (Tag.of name).Plain scope :=
  known.plain h (List.forall_mem_nil _) List.nodup_nil

theorem Knows.plain_instruction (known : Knows scope) {name attr value : Text}
    (h : IsInstruction name) (attr_name : IsAttrName attr) (text : XmlText value) :
    (instruction name attr value).Plain scope :=
  known.plain h (List.forall_mem_singleton.2 (attr_name.plain text)) (List.nodup_singleton _)

theorem Knows.plain_pairs (known : Knows scope) {name : Text} (h : IsInstruction name)
    {pairs : List (Text × Text)} (each : ∀ p ∈ pairs, IsAttrName p.1 ∧ XmlText p.2)
    (distinct : (pairs.map (·.1)).Nodup) :
    (Tag.mk name (pairs.map fun p => Attr.of p.1 p.2)).Plain scope := by
  refine known.plain h ?_ ?_
  · intro a ha
    obtain ⟨p, hp, rfl⟩ := List.mem_map.1 ha
    exact (each p hp).1.plain (each p hp).2
  · rw [List.map_map]
    exact distinct

theorem Knows.plain_two (known : Knows scope) {name first second value other : Text}
    (h : IsInstruction name) (first_name : IsAttrName first) (second_name : IsAttrName second)
    (ne : first ≠ second) (value_text : XmlText value) (other_text : XmlText other) :
    (Tag.mk name [Attr.of first value, Attr.of second other]).Plain scope := by
  have each : ∀ p ∈ [(first, value), (second, other)], IsAttrName p.1 ∧ XmlText p.2 := by
    rw [List.forall_mem_cons, List.forall_mem_singleton]
    exact ⟨⟨first_name, value_text⟩, second_name, other_text⟩
  refine known.plain_pairs h each ?_
  rw [List.map_cons, List.map_singleton, List.nodup_cons, List.mem_singleton]
  exact ⟨ne, List.nodup_singleton _⟩

theorem Knows.plain_valueOf (known : Knows scope) {select : Text} (h : XmlText select) :
    (valueOf select).Plain scope :=
  known.plain_instruction (by decide) (by decide) h

theorem Knows.plain_dateChoice (known : Knows scope) {select : Text} (h : XmlText select) :
    (dateChoice select).Plain scope := by
  refine ⟨known.plain_of (by decide), ?_, ?_, trivial⟩
  · exact ⟨known.plain_instruction (by decide) (by decide) h, known.plain_valueOf h⟩
  · exact ⟨known.plain_of (by decide), known.plain_valueOf xmlText_currentDateTime⟩

theorem Knows.plain_looped (known : Knows scope) {path? : Option Text} (h : ∀ path ∈ path?, XmlText path)
    (context : Context) {body : Context → List Markup} (inner : ∀ c, AllPlain scope (body c)) :
    AllPlain scope (looped path? context body) := by
  cases path? with
  | none => exact inner context
  | some path =>
    have select := xmlText_loopSelect (h path rfl) context
    exact ⟨⟨known.plain_instruction (by decide) (by decide) select, inner (some path)⟩, trivial⟩

end Tags

end FieldMap.Stylesheet
