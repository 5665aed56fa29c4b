import FieldMap.Markup.Layout

/-!
Markup as a tree: elements on one line, elements around further lines, and comments. A tree is laid
out by opening and closing the tag of each element that spans lines.
-/

namespace FieldMap.Markup

/-- An attribute with its value as it stands between the quotes. -/
structure Attr where
  name : Text
  written : Text
deriving DecidableEq

def Attr.of (name value : Text) : Attr :=
  ⟨name, escapeAttr value⟩

def Attr.text (a : Attr) : Text :=
  " " ++ a.name ++ "=\"" ++ a.written ++ "\""

structure Tag where
  name : Text
  attrs : List Attr
deriving DecidableEq

namespace Tag

def of (name : Text) : Tag :=
  ⟨name, []⟩

def content (t : Tag) : Text :=
  t.name ++ t.attrs.flatMap Attr.text

def startText (t : Tag) : Text :=
  "<" ++ t.content ++ ">"

def emptyText (t : Tag) : Text :=
  "<" ++ t.content ++ "/>"

def endText (t : Tag) : Text :=
  "</" ++ t.name ++ ">"

end Tag

/-- An element on one line. -/
inductive Inline where
  | empty (tag : Tag)
  | text (tag : Tag) (content : Text)
  | around (tag : Tag) (content : Inline)
deriving DecidableEq

def Inline.write : Inline → Text
  | .empty tag => tag.emptyText
  | .text tag content => tag.startText ++ escapeText content ++ tag.endText
  | .around tag content => tag.startText ++ content.write ++ tag.endText

end FieldMap.Markup

namespace FieldMap

inductive Markup where
  | line (element : Markup.Inline)
  | block (tag : Markup.Tag) (body : List Markup)
  | comment (text : Text)

namespace Markup

mutual

def steps : Markup → List Step
  | .line element => [.line element.write]
  | .block tag body => .start tag.startText :: (allSteps body ++ [.finish tag.endText])
  | .comment text => [.comment text]

def allSteps : List Markup → List Step
  | [] => []
  | m :: ms => m.steps ++ allSteps ms

end

end Markup

end FieldMap
