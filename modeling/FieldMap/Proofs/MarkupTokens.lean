import FieldMap.Proofs.References
import FieldMap.Markup.Tree

/-!
Written markup read as tokens. A start tag, an end tag or a comment is read as itself whatever
follows it, and a line break with its indentation is one text up to the markup after it. So the
layout of a piece of markup is read as the tokens of its elements, with one text before each line.
-/

namespace FieldMap.Xml

structure IsWord (w : Text) : Prop where
  chars : ∀ c ∈ w, isNameChar c = true
  isName : (QName.ofWord? w).isSome = true

instance (w : Text) : Decidable (IsWord w) :=
  decidable_of_iff (w.all isNameChar = true ∧ (QName.ofWord? w).isSome = true)
    ⟨fun h => ⟨List.all_eq_true.1 h.1, h.2⟩, fun h => ⟨List.all_eq_true.2 h.chars, h.isName⟩⟩

def wordName (w : Text) : QName :=
  (QName.ofWord? w).getD ⟨[], []⟩

theorem IsWord.ofWord? {w : Text} (h : IsWord w) : QName.ofWord? w = some (wordName w) := by
  obtain ⟨q, e⟩ := Option.isSome_iff_exists.mp h.isName
  rw [wordName, e]
  rfl

theorem IsWord.ne_nil {w : Text} (h : IsWord w) : w ≠ [] := by
  rintro rfl
  exact absurd h.isName (by decide)

theorem IsWord.head {w : Text} (h : IsWord w) :
    ∃ c cs, w = c :: cs ∧ isNameChar c = true := by
  obtain ⟨c, cs, rfl⟩ := List.exists_cons_of_ne_nil h.ne_nil
  exact ⟨c, cs, rfl, h.chars c List.mem_cons_self⟩

theorem ne_of_isNameChar {c d : Char} (h : isNameChar c = true) (hd : isNameChar d = false) :
    c ≠ d := by
  rintro rfl
  rw [h] at hd
  cases hd

theorem not_isSpace_of_isNameChar {c : Char} (h : isNameChar c = true) : isSpace c = false := by
  simp [isSpace, ne_of_isNameChar (d := ' ') h (by decide), ne_of_isNameChar (d := '\t') h (by decide),
    ne_of_isNameChar (d := '\n') h (by decide), ne_of_isNameChar (d := '\r') h (by decide)]

theorem read?_word {w rest : Text} (h : IsWord w) (stop : ∀ c ∈ rest.head?, isNameChar c = false) :
    QName.read? (w ++ rest) = some (wordName w, rest) := by
  have nothing : rest.takeWhile isNameChar = [] := by
    cases rest with
    | nil => rfl
    | cons c cs => simp [stop c rfl]
  rw [QName.read?, List.takeWhile_append_of_pos h.chars, List.dropWhile_append_of_pos h.chars,
    nothing, List.append_nil, h.ofWord?, Text.dropWhile_eq_self stop]
  rfl

theorem value?_quoted {v : Text} (inside : ∀ c ∈ v, c ≠ '<' ∧ c ≠ '"') (rest : Text) :
    value? ('"' :: (v ++ '"' :: rest)) = some (v, rest) := by
  have free : ∀ c ∈ v, (decide (c ≠ '"') && decide (c ≠ '<')) = true := by
    intro c hc
    simp [inside c hc]
  simp only [value?, List.dropWhile_append_of_pos free, List.takeWhile_append_of_pos free]
  simp

theorem skipSpaces_cons {c : Char} (h : isSpace c = false) (t : Text) :
    skipSpaces (c :: t) = c :: t := by
  simp [skipSpaces, h]

theorem attr?_written {name v : Text} (word : IsWord name) (inside : ∀ c ∈ v, c ≠ '<' ∧ c ≠ '"')
    (rest : Text) :
    attr? (name ++ ('=' :: '"' :: (v ++ '"' :: rest))) = some (⟨wordName name, v⟩, rest) := by
  have equals : afterEquals? ('=' :: '"' :: (v ++ '"' :: rest)) = some ('"' :: (v ++ '"' :: rest)) := by
    rw [afterEquals?, skipSpaces_cons (by decide)]
    simp only [skipSpaces_cons (c := '"') (by decide)]
  rw [attr?, read?_word word (by simp; decide)]
  simp only [equals, value?_quoted inside]
  rfl

theorem attrs?_close (rest : Text) : attrs? ('>' :: rest) = some ([], false, rest) := by
  rw [attrs?, skipSpaces_cons (by decide)]
  rfl

theorem attrs?_closed (rest : Text) : attrs? ('/' :: '>' :: rest) = some ([], true, rest) := by
  rw [attrs?, skipSpaces_cons (by decide)]
  rfl

theorem attrs?_attr {t rest : Text} {c : Char} {a : RawAttr} (name : isNameChar c = true)
    (h : attr? (c :: t) = some (a, rest)) :
    attrs? (' ' :: c :: t) =
      (attrs? rest).map fun (as, closed, last) => (a :: as, closed, last) := by
  have skip : skipSpaces (' ' :: c :: t) = c :: t := by
    rw [skipSpaces, List.dropWhile_cons_of_pos (by decide)]
    exact skipSpaces_cons (not_isSpace_of_isNameChar name) t
  rw [attrs?]
  split
  · next e =>
    rw [skip] at e
    cases e
    exact absurd name (by decide)
  · next e =>
    rw [skip] at e
    cases e
    exact absurd name (by decide)
  · rw [if_pos (show (' ' :: c :: t).head?.any isSpace = true from rfl)]
    split
    · next e =>
      rw [skip, h] at e
      cases e
    · next e =>
      rw [skip, h] at e
      cases e
      rfl

/-- Text that is read as the given tokens whatever follows it. -/
def Reads (t : Text) (ks : List Token) : Prop :=
  ∀ rest, tokens? (t ++ rest) = (tokens? rest).map (ks ++ ·)

theorem reads_nil : Reads [] [] := by
  intro rest
  cases h : tokens? rest <;> simp [h]

theorem Reads.append {t u : Text} {ks ls : List Token} (ht : Reads t ks) (hu : Reads u ls) :
    Reads (t ++ u) (ks ++ ls) := by
  intro rest
  rw [List.append_assoc, ht, hu, Option.map_map]
  simp [Function.comp_def]

theorem tokens?_cons {c : Char} {cs rest : Text} {k : Token} (h : next? c cs = some (k, rest)) :
    tokens? (c :: cs) = (tokens? rest).map (k :: ·) := by
  rw [tokens?]
  split
  · next e =>
    rw [h] at e
    cases e
  · next e =>
    rw [h] at e
    cases e
    rfl

theorem reads_markup {t : Text} {k : Token} (h : ∀ rest, markup? (t ++ rest) = some (k, rest)) :
    Reads ('<' :: t) [k] := by
  intro rest
  have taken : next? '<' (t ++ rest) = some (k, rest) := by rw [next?, if_pos rfl, h]
  rw [List.cons_append, tokens?_cons taken]
  rfl

theorem reads_text {t m : Text} {ks : List Token} (ne : t ≠ []) (free : ∀ c ∈ t, c ≠ '<')
    (unclosed : Text.contains "]]>" t = false) (first : m.head? = some '<') (h : Reads m ks) :
    Reads (t ++ m) (.text t :: ks) := by
  intro rest
  obtain ⟨c, cs, rfl⟩ := List.exists_cons_of_ne_nil ne
  obtain ⟨m, rfl⟩ := List.head?_eq_some_iff.mp first
  have inside : ∀ d ∈ cs, decide (d ≠ '<') = true := fun d hd =>
    decide_eq_true (free d (List.mem_cons_of_mem _ hd))
  have taken : next? c (cs ++ '<' :: m ++ rest) = some (.text (c :: cs), '<' :: m ++ rest) := by
    rw [next?, if_neg (free c List.mem_cons_self), List.append_assoc]
    simp only [List.takeWhile_append_of_pos inside, List.dropWhile_append_of_pos inside,
      List.cons_append]
    simpa using unclosed
  rw [List.cons_append, List.cons_append, tokens?_cons taken, h, Option.map_map]
  rfl

theorem tokens?_lineBreak : tokens? ['\n'] = some [.text ['\n']] := by
  have taken : next? '\n' [] = some (.text ['\n'], []) := by decide
  rw [tokens?_cons taken, tokens?]
  rfl

theorem splitAt?_comment {u : Text} (h : isCommentText u = true) (rest : Text) :
    Text.splitAt? "-->" (u ++ ('-' :: '-' :: '>' :: rest)) = some (u, rest) := by
  induction u with
  | nil => rfl
  | cons c u ih =>
    have pieces : (Text.after? "--" (c :: u)).isSome = false ∧ Text.contains "--" u = false ∧
        (c :: u).getLast? ≠ some '-' := by
      simpa [isCommentText, Text.contains, and_assoc] using h
    obtain ⟨begins, inner, last⟩ := pieces
    -- An end mark that began at `c` would need a second hyphen in the text, or its last character.
    have open? : Text.after? "-->" (c :: u ++ ('-' :: '-' :: '>' :: rest)) = none := by
      by_cases hc : c = '-'
      · subst hc
        cases u with
        | nil => exact absurd rfl last
        | cons d u =>
          by_cases hd : d = '-'
          · subst hd
            exact absurd begins (by simp [Text.after?])
          · simp [Text.after?, Ne.symm hd]
      · simp [Text.after?, Ne.symm hc]
    have rest' : isCommentText u = true := by
      rw [isCommentText, inner]
      cases u with
      | nil => rfl
      | cons d u => simpa using last
    rw [List.cons_append] at open? ⊢
    rw [Text.splitAt?, open?]
    simp only [ih rest']
    rfl

end FieldMap.Xml

namespace FieldMap.Markup

open Xml

structure Attr.Readable (a : Attr) : Prop where
  word : IsWord a.name
  inside : ∀ c ∈ a.written, c ≠ '<' ∧ c ≠ '"'

structure Tag.Readable (t : Tag) : Prop where
  word : IsWord t.name
  attrs : ∀ a ∈ t.attrs, a.Readable

def Attr.raw (a : Attr) : RawAttr :=
  ⟨wordName a.name, a.written⟩

def Tag.startToken (t : Tag) (closed : Bool) : Token :=
  .startTag (wordName t.name) (t.attrs.map Attr.raw) closed

def Tag.endToken (t : Tag) : Token :=
  .endTag (wordName t.name)

theorem Attr.text_append (a : Attr) (rest : Text) :
    a.text ++ rest = ' ' :: (a.name ++ ('=' :: '"' :: (a.written ++ '"' :: rest))) := by
  simp [Attr.text]

theorem attrs?_text {attrs : List Attr} (h : ∀ a ∈ attrs, a.Readable) {last rest : Text}
    {closed : Bool} (stop : attrs? last = some ([], closed, rest)) :
    attrs? (attrs.flatMap Attr.text ++ last) = some (attrs.map Attr.raw, closed, rest) := by
  induction attrs with
  | nil => exact stop
  | cons a attrs ih =>
    have ha := h a List.mem_cons_self
    obtain ⟨c, cs, name, start⟩ := ha.word.head
    have taken := attr?_written ha.word ha.inside (attrs.flatMap Attr.text ++ last)
    rw [List.flatMap_cons, List.append_assoc, Attr.text_append]
    rw [name, List.cons_append] at taken ⊢
    rw [attrs?_attr start taken, ih fun b hb => h b (List.mem_cons_of_mem _ hb), List.map_cons, Attr.raw,
      name]
    rfl

theorem markup?_name {c : Char} (h : Xml.isNameChar c = true) (t : Text) :
    markup? (c :: t) = startTag? (c :: t) := by
  rw [markup?]
  · rintro rest e
    cases e
    exact absurd h (by decide)
  · rintro rest e
    cases e
    exact absurd h (by decide)
  · rintro rest e
    cases e
    exact absurd h (by decide)

theorem markup?_tag {t : Tag} (h : t.Readable) {last rest : Text} {closed : Bool}
    (stop : attrs? last = some ([], closed, rest))
    (first : ∀ c ∈ last.head?, Xml.isNameChar c = false) :
    markup? (t.content ++ last) = some (t.startToken closed, rest) := by
  have ends : ∀ c ∈ (t.attrs.flatMap Attr.text ++ last).head?, Xml.isNameChar c = false := by
    cases t.attrs with
    | nil => simpa using first
    | cons a attrs =>
      intro c hc
      rw [List.flatMap_cons, List.append_assoc, Attr.text_append] at hc
      cases hc
      decide
  obtain ⟨c, cs, name, start⟩ := h.word.head
  have read := read?_word h.word ends
  rw [Tag.content, List.append_assoc]
  rw [name, List.cons_append] at read ⊢
  rw [markup?_name start, startTag?, read]
  simp only [attrs?_text h.attrs stop]
  rw [← name]
  rfl

theorem reads_startText {t : Tag} (h : t.Readable) : Reads t.startText [t.startToken false] := by
  have written : t.startText = '<' :: (t.content ++ ['>']) := by simp [Tag.startText]
  rw [written]
  refine reads_markup fun rest => ?_
  rw [List.append_assoc]
  exact markup?_tag h (attrs?_close rest) (by simp; decide)

theorem reads_emptyText {t : Tag} (h : t.Readable) : Reads t.emptyText [t.startToken true] := by
  have written : t.emptyText = '<' :: (t.content ++ ['/', '>']) := by simp [Tag.emptyText]
  rw [written]
  refine reads_markup fun rest => ?_
  rw [List.append_assoc]
  exact markup?_tag h (attrs?_closed rest) (by simp; decide)

theorem reads_endText {t : Tag} (h : t.Readable) : Reads t.endText [t.endToken] := by
  have written : t.endText = '<' :: '/' :: (t.name ++ ['>']) := by simp [Tag.endText]
  rw [written]
  refine reads_markup fun rest => ?_
  have stop : ∀ c ∈ ('>' :: rest).head?, Xml.isNameChar c = false := by simp; decide
  have read := read?_word h.word stop
  rw [List.cons_append, List.append_assoc, List.singleton_append, markup?, endTag?, read]
  simp only [skipSpaces_cons (c := '>') (by decide)]
  rfl

def textTokens (t : Text) : List Token :=
  if t = [] then [] else [.text t]

def Inline.tokens : Inline → List Token
  | .empty tag => [tag.startToken true]
  | .text tag content => tag.startToken false :: (textTokens (escapeText content) ++ [tag.endToken])
  | .around tag content => tag.startToken false :: (content.tokens ++ [tag.endToken])

def Inline.Readable : Inline → Prop
  | .empty tag => tag.Readable
  | .text tag _ => tag.Readable
  | .around tag content => tag.Readable ∧ content.Readable

theorem head?_startText (t : Tag) : t.startText.head? = some '<' :=
  rfl

theorem head?_endText (t : Tag) : t.endText.head? = some '<' :=
  rfl

theorem contains_escapeText (t : Text) : Text.contains "]]>" (escapeText t) = false := by
  rw [← Bool.not_eq_true, Text.contains_iff_isInfix]
  intro h
  exact (mem_escapeText (h.subset (show '>' ∈ "]]>".toList by decide))).2.1 rfl

theorem reads_inline {e : Inline} (h : e.Readable) : Reads e.write e.tokens := by
  induction e with
  | empty tag => exact reads_emptyText h
  | text tag content =>
    have start := reads_startText h
    have last := reads_endText h
    rw [Inline.write, Inline.tokens, List.append_assoc]
    refine start.append ?_
    by_cases empty : escapeText content = []
    · simpa [textTokens, empty] using last
    · rw [textTokens, if_neg empty]
      exact reads_text empty (fun c hc => (mem_escapeText hc).1) (contains_escapeText content)
        (head?_endText tag) last
  | around tag content ih =>
    rw [Inline.write, Inline.tokens, List.append_assoc]
    exact (reads_startText h.1).append ((ih h.2).append (reads_endText h.1))

def commentBody (t : Text) : Text :=
  ' ' :: (commentText t ++ [' '])

theorem reads_comment {t : Text} (h : isCommentText (commentBody t) = true) :
    Reads ("<!-- " ++ commentText t ++ " -->") [.comment (commentBody t)] := by
  have written : ("<!-- " ++ commentText t ++ " -->" : Text) =
      '<' :: '!' :: '-' :: '-' :: (commentBody t ++ ['-', '-', '>']) := by
    simp [commentBody]
  rw [written]
  refine reads_markup fun rest => ?_
  have split := splitAt?_comment h rest
  have opened : Text.after? "--" ('-' :: '-' :: (commentBody t ++ '-' :: '-' :: '>' :: rest)) =
      some (commentBody t ++ '-' :: '-' :: '>' :: rest) := rfl
  have taken : declared? ('-' :: '-' :: (commentBody t ++ '-' :: '-' :: '>' :: rest)) =
      some (.comment (commentBody t), rest) := by
    rw [declared?, opened]
    simp only [split, h, if_true]
  rw [List.cons_append, List.cons_append, List.cons_append, List.append_assoc]
  exact taken

def Step.shown : Step → Text
  | .line text => text
  | .start tag => tag
  | .finish tag => tag
  | .comment text => "<!-- " ++ commentText text ++ " -->"

def Step.depthAt (depth : Nat) : Step → Nat
  | .finish _ => depth - 1
  | _ => depth

theorem Step.text_eq_lineText (indent depth : Nat) (step : Step) :
    step.text indent depth = lineText indent (step.depthAt depth) step.shown := by
  cases step <;> rfl

/-- A line break with the indentation of the next line. -/
def gap (indent depth : Nat) : Text :=
  '\n' :: List.replicate (depth * indent) ' '

def broken (indent : Nat) : (depth : Nat) → List Step → Text
  | _, [] => []
  | depth, step :: steps =>
    gap indent (step.depthAt depth) ++ step.shown ++ broken indent (step.depthAfter depth) steps

theorem cons_write_flatten (indent depth : Nat) (steps : List Step) :
    '\n' :: (write indent depth steps).flatten = broken indent depth steps ++ ['\n'] := by
  -- Lines end in a line break; one moved from the end to the front, they begin with it.
  induction steps generalizing depth with
  | nil => rfl
  | cons step steps ih =>
    have next := ih (step.depthAfter depth)
    have ends : "\n".toList = ['\n'] := rfl
    rw [write, List.flatten_cons, broken, step.text_eq_lineText, lineText, gap, ends]
    simp only [List.append_assoc, List.cons_append, List.nil_append, next]

theorem broken_singleton (indent depth : Nat) (step : Step) :
    broken indent depth [step] = gap indent (step.depthAt depth) ++ step.shown :=
  List.append_nil _

theorem broken_append (indent depth : Nat) (a b : List Step) :
    broken indent depth (a ++ b) =
      broken indent depth a ++ broken indent (a.foldl Step.depthAfter depth) b := by
  induction a generalizing depth with
  | nil => rfl
  | cons step a ih => simp [broken, ih]

theorem mem_gap {indent depth : Nat} {c : Char} (h : c ∈ gap indent depth) : c = '\n' ∨ c = ' ' :=
  (List.mem_cons.mp h).imp_right List.eq_of_mem_replicate

theorem reads_gap (indent depth : Nat) {t : Text} {ks : List Token} (first : t.head? = some '<')
    (h : Reads t ks) : Reads (gap indent depth ++ t) (.text (gap indent depth) :: ks) := by
  refine reads_text (List.cons_ne_nil _ _) ?_ ?_ first h
  · intro c hc
    rcases mem_gap hc with rfl | rfl <;> decide
  · rw [← Bool.not_eq_true, Text.contains_iff_isInfix]
    intro inside
    rcases mem_gap (inside.subset (show '>' ∈ "]]>".toList by decide)) with e | e <;>
      exact absurd e (by decide)

mutual

def tokens (indent depth : Nat) : Markup → List Token
  | .line element => .text (gap indent depth) :: element.tokens
  | .block tag body =>
    .text (gap indent depth) :: tag.startToken false ::
      (allTokens indent (depth + 1) body ++ [.text (gap indent depth), tag.endToken])
  | .comment text => [.text (gap indent depth), .comment (commentBody text)]

def allTokens (indent depth : Nat) : List Markup → List Token
  | [] => []
  | m :: ms => m.tokens indent depth ++ allTokens indent depth ms

end

mutual

def Readable : Markup → Prop
  | .line element => element.Readable
  | .block tag body => tag.Readable ∧ AllReadable body
  | .comment text => isCommentText (commentBody text) = true

def AllReadable : List Markup → Prop
  | [] => True
  | m :: ms => m.Readable ∧ AllReadable ms

end

mutual

theorem foldl_depthAfter_steps (depth : Nat) (m : Markup) :
    m.steps.foldl Step.depthAfter depth = depth := by
  cases m with
  | line element => rfl
  | block tag body =>
    simp [steps, Step.depthAfter, foldl_depthAfter_allSteps (depth + 1) body]
  | comment text => rfl

theorem foldl_depthAfter_allSteps (depth : Nat) (ms : List Markup) :
    (allSteps ms).foldl Step.depthAfter depth = depth := by
  cases ms with
  | nil => rfl
  | cons m ms =>
    rw [allSteps, List.foldl_append, foldl_depthAfter_steps depth m,
      foldl_depthAfter_allSteps depth ms]

end

theorem head?_write (e : Inline) : e.write.head? = some '<' := by
  cases e <;> rfl

mutual

theorem reads_steps (indent depth : Nat) (m : Markup) (h : m.Readable) :
    Reads (broken indent depth m.steps) (m.tokens indent depth) := by
  cases m with
  | line element =>
    rw [steps, broken_singleton]
    exact reads_gap indent depth (head?_write element) (reads_inline h)
  | block tag body =>
    have start := reads_gap indent depth (head?_startText tag) (reads_startText h.1)
    have inner := reads_allSteps indent (depth + 1) body h.2
    have finish := reads_gap indent depth (head?_endText tag) (reads_endText h.1)
    rw [steps, broken, broken_append, Step.depthAfter, foldl_depthAfter_allSteps, broken_singleton]
    exact start.append (inner.append finish)
  | comment text =>
    rw [steps, broken_singleton]
    exact reads_gap indent depth rfl (reads_comment h)

theorem reads_allSteps (indent depth : Nat) (ms : List Markup) (h : AllReadable ms) :
    Reads (broken indent depth (allSteps ms)) (allTokens indent depth ms) := by
  cases ms with
  | nil => exact reads_nil
  | cons m ms =>
    have first := reads_steps indent depth m h.1
    have others := reads_allSteps indent depth ms h.2
    rw [allSteps, broken_append, foldl_depthAfter_steps, allTokens]
    exact first.append others

end

theorem tokens?_layout {m : Markup} (h : m.Readable) (indent : Nat) :
    tokens? ('\n' :: layout indent m.steps) = some (m.tokens indent 0 ++ [.text ['\n']]) := by
  rw [layout, cons_write_flatten, reads_steps indent 0 m h, tokens?_lineBreak]
  rfl

end FieldMap.Markup
