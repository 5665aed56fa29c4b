import FieldMap.Text.Blank

/-!
Attributes, variables and the root element of the output. An attribute has exactly one source for
its value: a literal text, a variable or an expression. The loose form in which both are written is
checked on the way in.
-/

namespace FieldMap

/-- Where the value of an attribute comes from. -/
inductive Attribute.Value where
  | hardcoded (text : Text)
  | variable (name : Text)
  | xpath (expression : Text)
deriving DecidableEq

structure Attribute where
  name : Text
  value : Attribute.Value
deriving DecidableEq

namespace Attribute

/-- An attribute as written: any of its value sources may be given. -/
structure Loose where
  name : Text
  value : Option Text
  isHardcoded : Bool
  isVariable : Bool
  xpath : Option Text
deriving DecidableEq

inductive Fault where
  | noName
  | notOneSource
  | noVariableName
deriving DecidableEq

def Fault.reason : Fault → Text
  | .noName => "attribute name is empty"
  | .notOneSource => "exactly one of isHardcoded, isVariable or xpath must be set"
  | .noVariableName => "variable attribute has no variable name"

def Fault.message (name : Text) (fault : Fault) : Text :=
  "Invalid attribute '" ++ name ++ "': " ++ fault.reason

/-- An expression counts as given unless it is blank. -/
def given (expression : Option Text) : Option Text :=
  expression.filter fun x => !Text.allBlank x

def ofLoose (raw : Loose) : Except Fault Attribute :=
  if Text.allBlank raw.name then .error .noName
  else
    match raw.isHardcoded, raw.isVariable, given raw.xpath with
    | false, false, some x => .ok ⟨Text.trim raw.name, .xpath x⟩
    | false, true, none =>
      match raw.value.bind Text.nonBlank? with
      | some name => .ok ⟨Text.trim raw.name, .variable name⟩
      | none => .error .noVariableName
    | true, false, none => .ok ⟨Text.trim raw.name, .hardcoded (raw.value.getD [])⟩
    | _, _, _ => .error .notOneSource

def toLoose (a : Attribute) : Loose :=
  match a.value with
  | .hardcoded text => ⟨a.name, some text, true, false, none⟩
  | .variable name => ⟨a.name, some name, false, true, none⟩
  | .xpath x => ⟨a.name, none, false, false, some x⟩

end Attribute

inductive Variable.Value where
  | literal (text : Text)
  | xpath (expression : Text)
deriving DecidableEq

structure Variable where
  name : Text
  value : Variable.Value
deriving DecidableEq

namespace Variable

structure Loose where
  name : Text
  value : Option Text
  xpath : Option Text
deriving DecidableEq

inductive Fault where
  | noName
  | twoValues
  | noValue
deriving DecidableEq

def Fault.reason : Fault → Text
  | .noName => "variable name is empty"
  | .twoValues => "both value and xpath are set"
  | .noValue => "neither value nor xpath is set"

def Fault.message (name : Text) (fault : Fault) : Text :=
  "Invalid variable '" ++ name ++ "': " ++ fault.reason

def ofLoose (raw : Loose) : Except Fault Variable :=
  if Text.allBlank raw.name then .error .noName
  else
    match raw.value, Attribute.given raw.xpath with
    | some _, some _ => .error .twoValues
    | none, none => .error .noValue
    | some text, none => .ok ⟨Text.trim raw.name, .literal text⟩
    | none, some x => .ok ⟨Text.trim raw.name, .xpath x⟩

def toLoose (v : Variable) : Loose :=
  match v.value with
  | .literal text => ⟨v.name, some text, none⟩
  | .xpath x => ⟨v.name, none, some x⟩

end Variable

structure RootElement where
  name : Text
  attributes : List Attribute
deriving DecidableEq

end FieldMap
