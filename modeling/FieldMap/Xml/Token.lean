import FieldMap.Xml.Name

/-!
Tokens of an XML document: tags with their attributes, and the text, comments and instructions
between them. Values of attributes and text are kept as written; their references are resolved
later.
-/

namespace FieldMap.Xml

structure RawAttr where
  name : QName
  value : Text
deriving DecidableEq

inductive Token where
  | startTag (name : QName) (attrs : List RawAttr) (closed : Bool)
  | endTag (name : QName)
  | text (written : Text)
  | cdata (text : Text)
  | comment (text : Text)
  | instruction (target content : Text)
deriving DecidableEq

def skipSpaces (t : Text) : Text :=
  t.dropWhile isSpace

def afterEquals? (t : Text) : Option Text :=
  match skipSpaces t with
  | '=' :: rest => some (skipSpaces rest)
  | _ => none

/-- A quoted value, in which no `<` may stand. -/
def value? (t : Text) : Option (Text × Text) :=
  match t with
  | q :: rest =>
    if q = '"' || q = '\'' then
      match rest.dropWhile fun c => c ≠ q && c ≠ '<' with
      | c :: after =>
        if c = q then some (rest.takeWhile fun c => c ≠ q && c ≠ '<', after) else none
      | [] => none
    else none
  | [] => none

def attr? (t : Text) : Option (RawAttr × Text) :=
  match QName.read? t with
  | none => none
  | some (name, rest) =>
    match afterEquals? rest with
    | none => none
    | some after => (value? after).map fun (value, last) => (⟨name, value⟩, last)

theorem length_skipSpaces_le (t : Text) : (skipSpaces t).length ≤ t.length :=
  Text.length_dropWhile_le _ _

theorem length_afterEquals?_lt {t rest : Text} (h : afterEquals? t = some rest) :
    rest.length < t.length := by
  have bound := length_skipSpaces_le t
  unfold afterEquals? at h
  split at h
  · next r heq =>
    have inner := length_skipSpaces_le r
    rw [heq, List.length_cons] at bound
    simp only [Option.some.injEq] at h
    subst h
    omega
  · simp at h

theorem length_value?_lt {t v rest : Text} (h : value? t = some (v, rest)) :
    rest.length < t.length := by
  unfold value? at h
  split at h
  · next q r =>
    split at h
    · split at h
      · next c after heq =>
        have bound := Text.length_dropWhile_le (fun c => c ≠ q && c ≠ '<') r
        rw [heq, List.length_cons] at bound
        split at h
        · simp only [Option.some.injEq, Prod.mk.injEq] at h
          rw [← h.2, List.length_cons]
          omega
        · simp at h
      · simp at h
    · simp at h
  · simp at h

theorem length_attr?_lt {t rest : Text} {a : RawAttr} (h : attr? t = some (a, rest)) :
    rest.length < t.length := by
  unfold attr? at h
  split at h
  · simp at h
  · next name r hname =>
    split at h
    · simp at h
    · next after hafter =>
      obtain ⟨⟨v, last⟩, hv, heq⟩ := Option.map_eq_some_iff.1 h
      simp only [Prod.mk.injEq] at heq
      have first := length_read?_le hname
      have second := length_afterEquals?_lt hafter
      have third := length_value?_lt hv
      rw [← heq.2]
      omega

/-- The attributes of a tag up to its end. Each attribute has white space before it. The second result
says that the tag is closed at once. -/
def attrs? (t : Text) : Option (List RawAttr × Bool × Text) :=
  match skipSpaces t with
  | '>' :: rest => some ([], false, rest)
  | '/' :: '>' :: rest => some ([], true, rest)
  | _ =>
    if t.head?.any isSpace then
      match _taken : attr? (skipSpaces t) with
      | none => none
      | some (a, rest) => (attrs? rest).map fun (as, closed, last) => (a :: as, closed, last)
    else none
termination_by t.length
decreasing_by
  have bound := length_skipSpaces_le t
  have shorter := length_attr?_lt _taken
  omega

theorem length_attrs?_lt {t rest : Text} {as : List RawAttr} {closed : Bool}
    (h : attrs? t = some (as, closed, rest)) : rest.length < t.length := by
  fun_induction attrs? t generalizing as closed with
  | case1 t r heq =>
    have bound := length_skipSpaces_le t
    rw [heq, List.length_cons] at bound
    simp only [Option.some.injEq, Prod.mk.injEq] at h
    rw [← h.2.2]
    omega
  | case2 t r heq =>
    have bound := length_skipSpaces_le t
    rw [heq, List.length_cons, List.length_cons] at bound
    simp only [Option.some.injEq, Prod.mk.injEq] at h
    rw [← h.2.2]
    omega
  | case3 => simp at h
  | case4 t _ a r ha _ _ ih =>
    obtain ⟨⟨bs, c, last⟩, hb, heq⟩ := Option.map_eq_some_iff.1 h
    simp only [Prod.mk.injEq] at heq
    obtain ⟨rfl, rfl, rfl⟩ := heq
    have bound := length_skipSpaces_le t
    have first := length_attr?_lt ha
    have second := ih hb
    omega
  | case5 => simp at h

/-- A comment holds no double hyphen and does not end in a hyphen. -/
def isCommentText (t : Text) : Bool :=
  !Text.contains "--" t && t.getLast? ≠ some '-'

/-- What follows `<!`: a comment or a character data section. -/
def declared? (t : Text) : Option (Token × Text) :=
  match Text.after? "--" t with
  | some rest =>
    match Text.splitAt? "-->" rest with
    | some (text, after) => if isCommentText text then some (.comment text, after) else none
    | none => none
  | none =>
    match Text.after? "[CDATA[" t with
    | some rest => (Text.splitAt? "]]>" rest).map fun (text, after) => (.cdata text, after)
    | none => none

/-- What follows `<?`: an instruction, which is not a declaration. -/
def instruction? (t : Text) : Option (Token × Text) :=
  if (Text.after? "xml " t).isSome then none
  else if startsName t then
    (Text.splitAt? "?>" (skipSpaces (t.dropWhile isNameChar))).map fun (content, after) =>
      (.instruction (t.takeWhile isNameChar) content, after)
  else none

def endTag? (t : Text) : Option (Token × Text) :=
  match QName.read? t with
  | none => none
  | some (name, rest) =>
    match skipSpaces rest with
    | '>' :: after => some (.endTag name, after)
    | _ => none

def startTag? (t : Text) : Option (Token × Text) :=
  match QName.read? t with
  | none => none
  | some (name, rest) =>
    (attrs? rest).map fun (attrs, closed, after) => (.startTag name attrs closed, after)

def markup? (t : Text) : Option (Token × Text) :=
  match t with
  | '!' :: rest => declared? rest
  | '?' :: rest => instruction? rest
  | '/' :: rest => endTag? rest
  | _ => startTag? t

/-- The token at the start of a text. Text goes on to the next `<` and does not hold `]]>`. -/
def next? (c : Char) (cs : Text) : Option (Token × Text) :=
  if c = '<' then markup? cs
  else
    let text := c :: cs.takeWhile (· ≠ '<')
    if Text.contains "]]>" text then none else some (.text text, cs.dropWhile (· ≠ '<'))

theorem length_after?_le {head t rest : Text} (h : Text.after? head t = some rest) :
    rest.length ≤ t.length := by
  have e := congrArg List.length (Text.eq_append_of_after? h)
  rw [List.length_append] at e
  omega

theorem length_markup?_le {t rest : Text} {k : Token} (h : markup? t = some (k, rest)) :
    rest.length ≤ t.length := by
  unfold markup? at h
  split at h
  · next r =>
    unfold declared? at h
    split at h
    · next r₁ h₁ =>
      have first := length_after?_le h₁
      split at h
      · next text after h₂ =>
        have second := Text.length_splitAt?_lt (by decide) h₂
        split at h
        · simp only [Option.some.injEq, Prod.mk.injEq] at h
          rw [← h.2, List.length_cons]
          omega
        · simp at h
      · simp at h
    · split at h
      · next r₁ h₁ =>
        have first := length_after?_le h₁
        obtain ⟨⟨text, after⟩, h₂, heq⟩ := Option.map_eq_some_iff.1 h
        have second := Text.length_splitAt?_lt (by decide) h₂
        simp only [Prod.mk.injEq] at heq
        rw [← heq.2, List.length_cons]
        omega
      · simp at h
  · next r =>
    unfold instruction? at h
    split at h
    · simp at h
    · split at h
      · obtain ⟨⟨content, after⟩, h₁, heq⟩ := Option.map_eq_some_iff.1 h
        have first := Text.length_splitAt?_lt (by decide) h₁
        have second := length_skipSpaces_le (r.dropWhile isNameChar)
        have third := Text.length_dropWhile_le isNameChar r
        simp only [Prod.mk.injEq] at heq
        rw [← heq.2, List.length_cons]
        omega
      · simp at h
  · next r =>
    unfold endTag? at h
    split at h
    · simp at h
    · next name r₁ h₁ =>
      have first := length_read?_le h₁
      have second := length_skipSpaces_le r₁
      split at h
      · next after h₂ =>
        rw [h₂, List.length_cons] at second
        simp only [Option.some.injEq, Prod.mk.injEq] at h
        rw [← h.2, List.length_cons]
        omega
      · simp at h
  · unfold startTag? at h
    split at h
    · simp at h
    · next name r₁ h₁ =>
      have first := length_read?_le h₁
      obtain ⟨⟨as, closed, after⟩, h₂, heq⟩ := Option.map_eq_some_iff.1 h
      have second := length_attrs?_lt h₂
      simp only [Prod.mk.injEq] at heq
      rw [← heq.2]
      omega

theorem length_next?_le {c : Char} {cs rest : Text} {k : Token} (h : next? c cs = some (k, rest)) :
    rest.length ≤ cs.length := by
  unfold next? at h
  split at h
  · exact length_markup?_le h
  · simp only at h
    split at h
    · simp at h
    · simp only [Option.some.injEq, Prod.mk.injEq] at h
      rw [← h.2]
      exact Text.length_dropWhile_le _ _

/-- The tokens of a text, if all of it is made of tokens. -/
def tokens? : Text → Option (List Token)
  | [] => some []
  | c :: cs =>
    match _taken : next? c cs with
    | none => none
    | some (token, rest) => (tokens? rest).map (token :: ·)
termination_by t => t.length
decreasing_by
  have shorter := length_next?_le _taken
  simp only [List.length_cons]
  omega

end FieldMap.Xml
