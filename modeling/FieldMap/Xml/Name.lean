import FieldMap.Text.Basic
import FieldMap.Text.Ranges

/-!
Characters and names of XML 1.0. A qualified name has at most one colon; the part after it starts as
a name does, and so does the part before it unless that is empty.
-/

namespace FieldMap.Xml

def isSpace (c : Char) : Bool :=
  c = ' ' || c = '\t' || c = '\n' || c = '\r'

def isXmlChar (c : Char) : Bool :=
  if c.toNat < 0x20 then isSpace c else c.toNat ≠ 0xFFFE && c.toNat ≠ 0xFFFF

def nameStartRanges : Ranges :=
  [(0x3A, 0x3A), (0x41, 0x5A), (0x5F, 0x5F), (0x61, 0x7A), (0xC0, 0xD6), (0xD8, 0xF6),
    (0xF8, 0x2FF), (0x370, 0x37D), (0x37F, 0x1FFF), (0x200C, 0x200D), (0x2070, 0x218F),
    (0x2C00, 0x2FEF), (0x3001, 0xD7FF), (0xF900, 0xFDCF), (0xFDF0, 0xFFFD), (0x10000, 0xEFFFF)]

def nameExtraRanges : Ranges :=
  [(0x2D, 0x2E), (0x30, 0x39), (0xB7, 0xB7), (0x300, 0x36F), (0x203F, 0x2040)]

def isNameStart (c : Char) : Bool :=
  nameStartRanges.has c.toNat

def isNameChar (c : Char) : Bool :=
  nameStartRanges.has c.toNat || nameExtraRanges.has c.toNat

def startsName (t : Text) : Bool :=
  t.head?.any isNameStart

/-- A qualified name: the part before the colon, empty if there is none, and the part after it. -/
structure QName where
  space : Text
  base : Text
deriving DecidableEq

namespace QName

def ofWord? (word : Text) : Option QName :=
  match List.splitOn ':' word with
  | [base] => if startsName base then some ⟨[], base⟩ else none
  | [space, base] =>
    if startsName base && (space.isEmpty || startsName space) then some ⟨space, base⟩ else none
  | _ => none

/-- The qualified name at the start of a text, and the text after it. -/
def read? (t : Text) : Option (QName × Text) :=
  (ofWord? (t.takeWhile isNameChar)).map fun name => (name, t.dropWhile isNameChar)

end QName

theorem length_read?_le {t rest : Text} {name : QName} (h : QName.read? t = some (name, rest)) :
    rest.length ≤ t.length := by
  obtain ⟨n, _, heq⟩ := Option.map_eq_some_iff.1 h
  simp only [Prod.mk.injEq] at heq
  rw [← heq.2]
  exact Text.length_dropWhile_le _ _

end FieldMap.Xml
