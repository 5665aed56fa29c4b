import FieldMap.Xml.Token

/-!
XML documents: well-formed text with its namespaces resolved. There is one outermost element, with
white space, comments and instructions around it; a document type is not accepted. Only the five
predefined entities and references to characters are known.
-/

namespace FieldMap.Xml

structure Attr where
  space : Option Text
  base : Text
  value : Text
deriving DecidableEq

inductive Node where
  | element (name : QName) (space : Option Text) (attrs : List Attr) (children : List Node)
  | text (content : Text)
  | comment (content : Text)
  | instruction (target content : Text)

def hexDigit? (c : Char) : Option Nat :=
  if c.isDigit then some (c.toNat - '0'.toNat)
  else if 'a' ≤ c && c ≤ 'f' then some (c.toNat - 'a'.toNat + 10)
  else if 'A' ≤ c && c ≤ 'F' then some (c.toNat - 'A'.toNat + 10)
  else none

def decimalDigit? (c : Char) : Option Nat :=
  if c.isDigit then some (c.toNat - '0'.toNat) else none

/-- The number that a non-empty list of digits stands for. -/
def number? (base : Nat) (digit? : Char → Option Nat) : Text → Option Nat
  | [] => none
  | c :: cs => do
    let first ← digit? c
    cs.foldlM (fun n c => (digit? c).map (base * n + ·)) first

/-- The character of a code point in a reference. A number of 32 bits that is no code point stands
for the replacement character. -/
def referenced? (n : Nat) : Option Char :=
  if 0x100000000 ≤ n then none
  else
    let c := if h : n.isValidChar then Char.ofNatAux n h else '\uFFFD'
    if isXmlChar c then some c else none

def entity? (name : Text) : Option Char :=
  if name = "lt" then some '<'
  else if name = "gt" then some '>'
  else if name = "amp" then some '&'
  else if name = "quot" then some '"'
  else if name = "apos" then some '\''
  else
    match name with
    | '#' :: 'x' :: digits => (number? 16 hexDigit? digits).bind referenced?
    | '#' :: digits => (number? 10 decimalDigit? digits).bind referenced?
    | _ => none

/-- The text with its references resolved; `plain` is applied to the parts between them. -/
def resolve? (plain : Text → Text) (t : Text) : Option Text :=
  match _found : t.dropWhile (· ≠ '&') with
  | [] => some (plain t)
  | _ :: after =>
    match _named : after.dropWhile (· ≠ ';') with
    | [] => none
    | _ :: rest =>
      match entity? (after.takeWhile (· ≠ ';')), resolve? plain rest with
      | some c, some last => some (plain (t.takeWhile (· ≠ '&')) ++ c :: last)
      | _, _ => none
termination_by t.length
decreasing_by
  have first := Text.length_dropWhile_le (· ≠ '&') t
  have second := Text.length_dropWhile_le (· ≠ ';') after
  rw [_found, List.length_cons] at first
  rw [_named, List.length_cons] at second
  omega

/-- Line ends in text are line feeds. -/
def plainText : Text → Text
  | '\r' :: '\n' :: rest => '\n' :: plainText rest
  | '\r' :: rest => '\n' :: plainText rest
  | c :: rest => c :: plainText rest
  | [] => []

/-- White space in an attribute value is a space for each line end or tab. -/
def plainValue : Text → Text
  | '\r' :: '\n' :: rest => ' ' :: plainValue rest
  | c :: rest => (if isSpace c then ' ' else c) :: plainValue rest
  | [] => []

def xmlUri : Text := "http://www.w3.org/XML/1998/namespace"

/-- The namespace of declarations, which may not be declared itself. -/
def xmlnsUri : Text := "http://www.w3.org/2000/xmlns/"

/-- Namespaces in scope, innermost first; the empty prefix is the default namespace. -/
abbrev Scope := List (Text × Text)

def Scope.find? (scope : Scope) (space : Text) : Option Text :=
  (List.find? (·.1 = space) scope).map (·.2)

def values? : List RawAttr → Option (List (QName × Text))
  | [] => some []
  | a :: as =>
    match resolve? plainValue a.value, values? as with
    | some value, some rest => some ((a.name, value) :: rest)
    | _, _ => none

def isDeclaration (name : QName) : Bool :=
  name.space = "xmlns".toList || name.base = "xmlns".toList

/-- The declarations of a tag, in order. The prefix `xml` keeps its namespace and no other prefix
has it; no prefix is declared twice. -/
def declarations? : (done : Scope) → List (QName × Text) → Option Scope
  | done, [] => some done
  | done, (name, uri) :: rest =>
    if name.space = "xmlns".toList then
      if uri = xmlnsUri then none
      else if name.base = "xml".toList then
        if uri = xmlUri then declarations? done rest else none
      else if uri = xmlUri || done.any (·.1 = name.base) then none
      else declarations? (done ++ [(name.base, uri)]) rest
    else if name.base = "xmlns".toList then
      if uri = xmlUri || uri = xmlnsUri then none
      else declarations? (done ++ [([], uri)]) rest
    else declarations? done rest

/-- The namespace of an attribute: none without a prefix. -/
def attrSpace? (scope : Scope) (space : Text) : Option (Option Text) :=
  if space = [] then some none
  else if space = "xml".toList then some (some xmlUri)
  else (scope.find? space).map some

def attributes? (scope : Scope) : (done : List Attr) → List (QName × Text) → Option (List Attr)
  | done, [] => some done
  | done, (name, value) :: rest =>
    if isDeclaration name then attributes? scope done rest
    else
      match attrSpace? scope name.space with
      | none => none
      | some space =>
        if done.any fun a => a.space = space && a.base = name.base then none
        else attributes? scope (done ++ [⟨space, name.base, value⟩]) rest

/-- The namespace of an element: the default one without a prefix. -/
def elementSpace? (scope : Scope) (space : Text) : Option (Option Text) :=
  if space = [] then some (scope.find? [])
  else if space = "xmlns".toList then none
  else (scope.find? space).map some

/-- An element whose end is still to come; its children are kept latest first. -/
structure Open where
  name : QName
  space : Option Text
  attrs : List Attr
  scope : Scope
  done : List Node

/-- The element that a start tag opens inside a scope. -/
def open? (outer : Scope) (name : QName) (raw : List RawAttr) : Option Open := do
  let values ← values? raw
  let own ← declarations? [] values
  let scope := own ++ outer
  let space ← elementSpace? scope name.space
  let attrs ← attributes? scope [] values
  some ⟨name, space, attrs, scope, []⟩

def Open.close (o : Open) : Node :=
  .element o.name o.space o.attrs o.done.reverse

/-- The open elements, innermost first, and the outermost element once it has ended. -/
structure State where
  stack : List Open
  root : Option Node

/-- Adds a node to the innermost open element; outside the outermost element only it counts. -/
def State.add (s : State) (n : Node) : State :=
  match s.stack with
  | o :: os => { s with stack := { o with done := n :: o.done } :: os }
  | [] => s

def State.finish (s : State) (o : Open) (os : List Open) : State :=
  match os with
  | [] => { stack := [], root := some o.close }
  | _ => State.add { s with stack := os } o.close

def State.step? (s : State) : Token → Option State
  | .comment t => some (s.add (.comment t))
  | .instruction target content => some (s.add (.instruction target content))
  | .text t =>
    if s.stack.isEmpty then if t.all isSpace then some s else none
    else (resolve? plainText t).map fun text => s.add (.text text)
  | .cdata t => if s.stack.isEmpty then none else some (s.add (.text (plainText t)))
  | .startTag name attrs closed =>
    if s.stack.isEmpty && s.root.isSome then none
    else
      (open? ((s.stack.head?.map (·.scope)).getD []) name attrs).map fun o =>
        if closed then s.finish o s.stack else { s with stack := o :: s.stack }
  | .endTag name =>
    match s.stack with
    | o :: os => if o.name = name then some (s.finish o os) else none
    | [] => none

def assemble? (s : State) : List Token → Option Node
  | [] => if s.stack.isEmpty then s.root else none
  | t :: ts =>
    match s.step? t with
    | some next => assemble? next ts
    | none => none

def afterPseudo? (name t : Text) : Option Text :=
  if (Text.after? name t).isSome then (attr? t).map (·.2) else none

/-- White space between the parts of a declaration, needed unless its end follows. -/
def declarationSpace? (t : Text) : Option Text :=
  if t.head?.any isSpace then some (skipSpaces t)
  else if (Text.after? "?>" t).isSome then some t
  else none

def optionalPseudo? (name t : Text) : Option Text :=
  if (Text.after? name t).isSome then (afterPseudo? name t).bind declarationSpace? else some t

/-- The text after a declaration: version, and optionally encoding and standalone, in this order. -/
def afterDeclaration? (t : Text) : Option Text := do
  let t ← afterPseudo? "version" (skipSpaces t)
  let t ← declarationSpace? t
  let t ← optionalPseudo? "encoding" t
  let t ← if (Text.after? "standalone" t).isSome then afterPseudo? "standalone" t else some t
  Text.after? "?>" (skipSpaces t)

/-- The text after the byte order mark and the declaration, where they are there. -/
def body? (t : Text) : Option Text :=
  let unmarked := (Text.after? ['\uFEFF'] t).getD t
  match Text.after? "<?xml " unmarked with
  | some rest => afterDeclaration? rest
  | none => some unmarked

def parse? (t : Text) : Option Node :=
  if t.all isXmlChar then
    match body? t with
    | some body => (tokens? body).bind (assemble? ⟨[], none⟩)
    | none => none
  else none

end FieldMap.Xml
