import Mathlib.Data.Set.Lattice
import FieldMap.Proofs.ContextWindows
import FieldMap.Proofs.MarkupTokens
import FieldMap.Proofs.XmlCharacters

/-!
Location paths without predicates and the nodes they select. A path is read into tests for names, any
element and attributes, and evaluated on the nodes of a document, each known by its place. A path
below the context of a loop, seen from there, selects from the nodes of the context what the whole
path selects from the document.
-/

namespace FieldMap.Xml

/-- A node of a document: the positions of the nodes on the way to it, and for an attribute its number
there. The document itself is the place without positions. -/
structure Place where
  path : List Nat
  attr : Option Nat := none
deriving DecidableEq

def Place.document : Place :=
  ⟨[], none⟩

/-- The one character that names may hold although it is white space. -/
def oghamSpace : Char := '\u1680'

theorem eq_oghamSpace {c : Char} (name : isNameChar c = true) (blank : Text.isBlank c = true) :
    c = oghamSpace := by
  have apart : ∀ b ∈ Text.blankRanges, ∀ r ∈ nameStartRanges ++ nameExtraRanges,
      b.2 < r.1 ∨ r.2 < b.1 ∨ b = (0x1680, 0x1680) := by decide
  obtain ⟨b, hb, low, high⟩ := Ranges.exists_of_has blank
  obtain ⟨r, hr, from_low, to_high⟩ := exists_range_of_isNameChar name
  rcases apart b hb r hr with before | after | rfl
  · omega
  · omega
  · have code : c.toNat = 0x1680 := by
      simp only at low high
      omega
    exact Char.ext (UInt32.toNat_inj.mp code)

def nodeAt? : (doc : List Node) → (path : List Nat) → Option Node
  | _, [] => none
  | doc, [i] => doc[i]?
  | doc, i :: j :: path =>
    match doc[i]? with
    | some (.element _ _ _ children) => nodeAt? children (j :: path)
    | _ => none

def childrenAt (doc : List Node) (path : List Nat) : List Node :=
  if path = [] then doc
  else
    match nodeAt? doc path with
    | some (.element _ _ _ children) => children
    | _ => []

def attrsAt (doc : List Node) (path : List Nat) : List Attr :=
  match nodeAt? doc path with
  | some (.element _ _ attrs _) => attrs
  | _ => []

def allPlaces (doc : List Node) : Set Place :=
  {p | p.attr = none ∧ (p.path = [] ∨ (nodeAt? doc p.path).isSome = true)}

/-- A name in an expression stands for a namespace and a name in it. Without prefix the namespace is
none; other prefixes are those in the scope of the expression. -/
def denotes (scope : Scope) (word : Text) (space : Option Text) (base : Text) : Bool :=
  let name := wordName word
  base = name.base &&
    if name.space = [] then space = none else (scope.find? name.space).any (space = some ·)

end FieldMap.Xml

namespace FieldMap.Path

open Xml

inductive Test where
  | name (word : Text)
  | any
  | attr (word : Text)
deriving DecidableEq

namespace Test

def text : Test → Text
  | .name word => word
  | .any => ['*']
  | .attr word => '@' :: word

def read? (t : Text) : Option Test :=
  match t with
  | ['*'] => some .any
  | '@' :: word => if IsWord word then some (.attr word) else none
  | _ => if IsWord t then some (.name t) else none

def isAttribute : Test → Bool
  | .attr _ => true
  | _ => false

def admits (scope : Scope) : Test → Node → Bool
  | .name word, .element label space _ _ => denotes scope word space label.base
  | .any, .element .. => true
  | _, _ => false

def next (scope : Scope) (doc : List Node) (test : Test) (p : Place) : List Place :=
  match p.attr, test with
  | some _, _ => []
  | none, .attr word =>
    (attrsAt doc p.path).zipIdx.filterMap fun (a, i) =>
      if denotes scope word a.space a.base then some ⟨p.path, some i⟩ else none
  | none, test =>
    (childrenAt doc p.path).zipIdx.filterMap fun (n, i) =>
      if test.admits scope n then some ⟨p.path ++ [i], none⟩ else none

end Test

def walk (scope : Scope) (doc : List Node) : List Test → Place → List Place
  | [], p => [p]
  | test :: tests, p => (test.next scope doc p).flatMap (walk scope doc tests)

/-- Where a path starts: at the document, at any node of it, or at the node it is evaluated for. -/
inductive Start where
  | document
  | anywhere
  | here
deriving DecidableEq

structure Location where
  start : Start
  tests : List Test
deriving DecidableEq

namespace Location

def readAll? : List Text → Option (List Test)
  | [] => some []
  | t :: ts =>
    match Test.read? t, readAll? ts with
    | some test, some tests => some (test :: tests)
    | _, _ => none

/-- Steps between slashes, with an attribute in the last place only. -/
def tests? (t : Text) : Option (List Test) :=
  (readAll? (List.splitOn '/' t)).filter fun tests => !tests.dropLast.any Test.isAttribute

/-- The location path that is written so; a single dot is the node itself. -/
def read? (t : Text) : Option Location :=
  if t = ['.'] then some ⟨.here, []⟩
  else
    match t with
    | '/' :: '/' :: rest => (tests? rest).map (⟨.anywhere, ·⟩)
    | '/' :: rest => (tests? rest).map (⟨.document, ·⟩)
    | rest => (tests? rest).map (⟨.here, ·⟩)

def texts (l : Location) : List Text :=
  l.tests.map Test.text

/-- The nodes that a path selects when it is evaluated for a node. -/
def selects (scope : Scope) (doc : List Node) (l : Location) (p : Place) : Set Place :=
  match l.start with
  | .document => {q | q ∈ walk scope doc l.tests .document}
  | .anywhere => ⋃ s ∈ allPlaces doc, {q | q ∈ walk scope doc l.tests s}
  | .here => {q | q ∈ walk scope doc l.tests p}

end Location

theorem mem_walk_append {scope : Scope} {doc : List Node} {first second : List Test} {p q : Place} :
    q ∈ walk scope doc (first ++ second) p ↔
      ∃ r ∈ walk scope doc first p, q ∈ walk scope doc second r := by
  induction first generalizing p with
  | nil => simp [walk]
  | cons test tests ih =>
    simp only [List.cons_append, walk, List.mem_flatMap, ih]
    constructor
    · rintro ⟨n, hn, r, hr, hq⟩
      exact ⟨r, ⟨n, hn, hr⟩, hq⟩
    · rintro ⟨r, ⟨n, hn, hr⟩, hq⟩
      exact ⟨n, hn, r, hr, hq⟩

theorem selects_append (scope : Scope) (doc : List Node) (start : Start) (first second : List Test)
    (p : Place) :
    Location.selects scope doc ⟨start, first ++ second⟩ p =
      ⋃ n ∈ Location.selects scope doc ⟨start, first⟩ p,
        Location.selects scope doc ⟨.here, second⟩ n := by
  ext q
  cases start with
  | document => simp [Location.selects, mem_walk_append]
  | here => simp [Location.selects, mem_walk_append]
  | anywhere =>
    simp only [Location.selects, Set.mem_iUnion, Set.mem_ofPred_eq, mem_walk_append]
    constructor
    · rintro ⟨s, hs, r, hr, hq⟩
      exact ⟨r, ⟨s, hs, hr⟩, hq⟩
    · rintro ⟨r, ⟨s, hs, hr⟩, hq⟩
      exact ⟨s, hs, r, hr, hq⟩

def Test.Named : Test → Prop
  | .name word => IsWord word
  | .any => True
  | .attr word => IsWord word

theorem not_mem_of_isWord {w : Text} (h : IsWord w) {c : Char} (other : Xml.isNameChar c = false) :
    c ∉ w := by
  intro inside
  rw [h.chars c inside] at other
  cases other

theorem Test.read?_eq_some_iff {t : Text} {test : Test} :
    Test.read? t = some test ↔ t = test.text ∧ test.Named := by
  unfold Test.read?
  constructor
  · intro h
    split at h
    · cases h
      exact ⟨rfl, trivial⟩
    · obtain ⟨word, e⟩ := Option.ite_none_right_eq_some.mp h
      cases e
      exact ⟨rfl, word⟩
    · obtain ⟨word, e⟩ := Option.ite_none_right_eq_some.mp h
      cases e
      exact ⟨rfl, word⟩
  · rintro ⟨rfl, named⟩
    cases test with
    | any => rfl
    | attr word => exact if_pos named
    | name word =>
      have wild : '*' ∉ word := not_mem_of_isWord named (by decide)
      have sign : '@' ∉ word := not_mem_of_isWord named (by decide)
      simp only [Test.text]
      split
      · exact absurd List.mem_cons_self wild
      · exact absurd List.mem_cons_self sign
      · exact if_pos named

theorem Test.Named.last_not_blank {test : Test} (h : test.Named) {x : Char}
    (last : x ∈ test.text.getLast?) (other : x ≠ oghamSpace) : Text.isBlank x = false := by
  have name {word : Text} (named : IsWord word) (inside : x ∈ word) : Text.isBlank x = false := by
    rw [← Bool.not_eq_true]
    intro blank
    exact other (eq_oghamSpace (named.chars x inside) blank)
  have inside := List.mem_of_getLast? last
  cases test with
  | any =>
    rw [List.mem_singleton.mp inside]
    decide
  | name word => exact name h inside
  | attr word =>
    rcases List.mem_cons.mp inside with rfl | inside
    · decide
    · exact name h inside

theorem Test.Named.isPlainStep {test : Test} (h : test.Named) : IsPlainStep test.text := by
  cases test with
  | any => exact ⟨by decide, by decide, by decide⟩
  | name word =>
    exact ⟨h.ne_nil, not_mem_of_isWord h (by decide), not_mem_of_isWord h (by decide)⟩
  | attr word =>
    refine ⟨List.cons_ne_nil _ _, ?_, ?_⟩
    · rw [Test.text, List.mem_cons, not_or]
      exact ⟨by decide, not_mem_of_isWord h (by decide)⟩
    · rw [Test.text, List.mem_cons, not_or]
      exact ⟨by decide, not_mem_of_isWord h (by decide)⟩

namespace Location

theorem readAll?_eq_some_iff {ts : List Text} {tests : List Test} :
    readAll? ts = some tests ↔ ts = tests.map Test.text ∧ ∀ x ∈ tests, x.Named := by
  induction ts generalizing tests with
  | nil =>
    cases tests with
    | nil => simp [readAll?]
    | cons test tests => simp [readAll?]
  | cons t ts ih =>
    cases tests with
    | nil =>
      rw [readAll?]
      split <;> simp
    | cons test tests =>
      rw [List.map_cons, List.cons.injEq, List.forall_mem_cons]
      constructor
      · intro h
        rw [readAll?] at h
        split at h
        · next first others =>
          cases h
          obtain ⟨e, named⟩ := Test.read?_eq_some_iff.mp first
          obtain ⟨es, all⟩ := ih.mp others
          exact ⟨⟨e, es⟩, named, all⟩
        · cases h
      · rintro ⟨⟨e, es⟩, named, all⟩
        rw [readAll?, Test.read?_eq_some_iff.mpr ⟨e, named⟩, ih.mpr ⟨es, all⟩]

/-- Steps that a path can have: at least one, each with a proper name, attributes at the end. -/
structure Readable (tests : List Test) : Prop where
  ne_nil : tests ≠ []
  named : ∀ x ∈ tests, x.Named
  attr_last : tests.dropLast.any Test.isAttribute = false

theorem Readable.isPlainStep {tests : List Test} (h : Readable tests) :
    ∀ s ∈ tests.map Test.text, IsPlainStep s := by
  intro s hs
  obtain ⟨x, hx, rfl⟩ := List.mem_map.mp hs
  exact (h.named x hx).isPlainStep

theorem Readable.suffix {first second : List Test} (h : Readable (first ++ second))
    (ne : second ≠ []) : Readable second where
  ne_nil := ne
  named := fun x hx => h.named x (List.mem_append_right first hx)
  attr_last := by
    have all := h.attr_last
    rw [List.dropLast_append_of_ne_nil ne, List.any_append, Bool.or_eq_false_iff] at all
    exact all.2

theorem tests?_eq_some_iff {t : Text} {tests : List Test} :
    tests? t = some tests ↔ t = List.intercalate "/" (tests.map Test.text) ∧ Readable tests := by
  rw [tests?, Option.filter_eq_some_iff, readAll?_eq_some_iff, Bool.not_eq_true']
  constructor
  · rintro ⟨⟨split, named⟩, last⟩
    have ne : tests ≠ [] := by
      rintro rfl
      exact List.splitOn_ne_nil '/' t split
    refine ⟨?_, ne, named, last⟩
    rw [← split]
    exact (List.intercalate_splitOn '/').symm
  · rintro ⟨rfl, h⟩
    refine ⟨⟨?_, h.named⟩, h.attr_last⟩
    exact List.splitOn_intercalate _ (fun s hs => (h.isPlainStep s hs).no_slash) (by simp [h.ne_nil])

def slashes : Start → Nat
  | .document => 1
  | .anywhere => 2
  | .here => 0

theorem text_of_read? {t : Text} {l : Location} (h : read? t = some l) (start : l.start ≠ .here) :
    t = List.replicate (slashes l.start) '/' ++ List.intercalate "/" l.texts ∧ Readable l.tests := by
  unfold read? at h
  split at h
  · cases h
    exact absurd rfl start
  · split at h
    · obtain ⟨tests, found, rfl⟩ := Option.map_eq_some_iff.mp h
      obtain ⟨e, readable⟩ := tests?_eq_some_iff.mp found
      exact ⟨congrArg ('/' :: '/' :: ·) e, readable⟩
    · obtain ⟨tests, found, rfl⟩ := Option.map_eq_some_iff.mp h
      obtain ⟨e, readable⟩ := tests?_eq_some_iff.mp found
      exact ⟨congrArg ('/' :: ·) e, readable⟩
    · obtain ⟨tests, found, rfl⟩ := Option.map_eq_some_iff.mp h
      exact absurd rfl start

theorem head?_intercalate_texts {tests : List Test} (h : Readable tests) :
    (List.intercalate "/" (tests.map Test.text)).head? ≠ some '/' := by
  obtain ⟨first, others, rfl⟩ := List.exists_cons_of_ne_nil h.ne_nil
  have plain := h.isPlainStep first.text (by simp)
  rw [List.map_cons, Text.head?_intercalate plain.ne_nil]
  intro slash
  exact plain.no_slash (List.mem_of_mem_head? slash)

theorem read?_remainder {tests : List Test} (h : tests ≠ [] → Readable tests) :
    read? (remainder (tests.map Test.text)) = some ⟨.here, tests⟩ := by
  by_cases none : tests = []
  · subst none
    rfl
  · have readable := h none
    have some : tests.map Test.text ≠ [] := by simpa using none
    have found := tests?_eq_some_iff.mpr ⟨rfl, readable⟩
    have first := head?_intercalate_texts readable
    have dot : List.intercalate "/" (tests.map Test.text) ≠ ['.'] := by
      intro e
      have lone : tests? ['.'] = Option.none := by decide
      rw [e, lone] at found
      cases found
    rw [remainder, if_neg some]
    unfold read?
    rw [if_neg dot]
    split
    · next e => exact absurd (by rw [e]; rfl) first
    · next e => exact absurd (by rw [e]; rfl) first
    · rw [found]
      rfl

end Location

/-- A path and the context of a loop, both from the document or both from anywhere in it. The path
begins with the steps of the context, and a context from anywhere does not occur again. -/
structure BeginsWith (p c : Text) (path context : Location) : Prop where
  path_read : Location.read? p = some path
  context_read : Location.read? c = some context
  same_start : path.start = context.start
  absolute : context.start ≠ .here
  begins : context.tests <+: path.tests
  ne_nil : context.tests ≠ []
  only : context.start = .anywhere → ∀ k, 0 < k → ¬ WindowAt context.texts path.texts k

/-- The path is seen from the context as one that selects, from the nodes of the context, the nodes of
the path in every document. -/
def SeenFrom (p c : Text) (path context : Location) : Prop :=
  ∃ r rest, relativeTo p c = some r ∧ Location.read? r = some rest ∧ ∀ scope doc,
    path.selects scope doc .document =
      ⋃ n ∈ context.selects scope doc .document, rest.selects scope doc n

theorem isAnchored_cons {t : Text} (h : t.head? ≠ some '/') : isAnchored ('/' :: t) = true := by
  unfold isAnchored
  split
  · next e =>
    cases e
    exact absurd rfl h
  · rfl
  · next other => exact absurd rfl (other t)

theorem isAnchored_of_read? {t : Text} {l : Location} (h : Location.read? t = some l)
    (start : l.start ≠ .here) : isAnchored t = decide (l.start = .document) := by
  obtain ⟨e, readable⟩ := Location.text_of_read? h start
  rw [e]
  cases from? : l.start with
  | here => exact absurd from? start
  | anywhere => rfl
  | document => exact isAnchored_cons (Location.head?_intercalate_texts readable)

theorem trim_of_read? {t : Text} {l : Location} (h : Location.read? t = some l)
    (start : l.start ≠ .here) (last : t.getLast? ≠ some oghamSpace) : Text.trim t = t := by
  obtain ⟨e, readable⟩ := Location.text_of_read? h start
  refine Text.trim_eq_self ?_ ?_
  · intro x first
    have slash : x = '/' := by
      rw [e] at first
      cases from? : l.start with
      | here => exact absurd from? start
      | anywhere => simpa [from?, Location.slashes, eq_comm] using first
      | document => simpa [from?, Location.slashes, eq_comm] using first
    rw [slash]
    decide
  · intro x hx
    have other : x ≠ oghamSpace := by
      rintro rfl
      exact last hx
    have plain : ∀ s ∈ l.texts, IsPlainStep s := readable.isPlainStep
    have some : l.texts ≠ [] := by simpa [Location.texts] using readable.ne_nil
    have joined : List.intercalate "/" l.texts ≠ [] :=
      Text.intercalate_ne_nil (fun s hs => (plain s hs).ne_nil) some
    rw [e, List.getLast?_append_of_ne_nil _ joined,
      Text.getLast?_intercalate fun s hs => (plain s hs).ne_nil] at hx
    obtain ⟨s, hs, hxs⟩ := Option.bind_eq_some_iff.mp hx
    obtain ⟨test, htest, rfl⟩ := List.mem_map.mp (List.mem_of_getLast? hs)
    exact (readable.named test htest).last_not_blank hxs other

theorem steps_of_read? {t : Text} {l : Location} (h : Location.read? t = some l)
    (start : l.start ≠ .here) (last : t.getLast? ≠ some oghamSpace) : steps t = l.texts := by
  have trimmed := trim_of_read? h start last
  obtain ⟨e, readable⟩ := Location.text_of_read? h start
  rw [e] at trimmed ⊢
  refine steps_slashes_intercalate readable.isPlainStep _ ?_ trimmed
  simpa [Location.texts] using readable.ne_nil

theorem not_windowAt_singleton {c : Text} {steps : List Text}
    (h : ∀ k < steps.length, 0 < k → ¬ WindowAt [c] steps k) : ∀ k, 0 < k → ¬ WindowAt [c] steps k := by
  intro k positive window
  have lengths := window.length_eq
  rw [List.length_take, List.length_drop, List.length_singleton] at lengths
  exact h k (by omega) positive window

section Rewriting

variable {p c : Text} {path context : Location} (h : BeginsWith p c path context)

include h

theorem BeginsWith.relativeTo_eq_remainder (path_end : p.getLast? ≠ some oghamSpace)
    (context_end : c.getLast? ≠ some oghamSpace) :
    relativeTo p c = some (remainder (path.texts.drop context.texts.length)) := by
  have from_document : path.start ≠ .here := h.same_start ▸ h.absolute
  have path_steps := steps_of_read? h.path_read from_document path_end
  have context_steps := steps_of_read? h.context_read h.absolute context_end
  have trimmed := trim_of_read? h.context_read h.absolute context_end
  have some : context.texts ≠ [] := by simpa [Location.texts] using h.ne_nil
  have first : WindowAt context.texts path.texts 0 :=
    windowAt_zero_of_isPrefix (h.begins.map Test.text)
  rw [relativeTo_eq (by rwa [trimmed, context_steps]), trimmed, path_steps, context_steps,
    isAnchored_of_read? h.context_read h.absolute]
  by_cases anchored : context.start = .document
  · rw [if_pos (decide_eq_true anchored), afterContext?_eq_some_iff.mpr ⟨first, rfl⟩]
    rfl
  · have anywhere : context.start = .anywhere := by
      cases from? : context.start with
      | document => exact absurd from? anchored
      | anywhere => rfl
      | here => exact absurd from? h.absolute
    rw [if_neg (by simpa using anchored), afterLastContext?_eq_some first (h.only anywhere),
      Nat.zero_add]
    rfl

theorem BeginsWith.seenFrom {r : Text} {rest : List Test} (split : context.tests ++ rest = path.tests)
    (found : relativeTo p c = some r) (read : Location.read? r = some ⟨.here, rest⟩) :
    SeenFrom p c path context := by
  refine ⟨r, ⟨.here, rest⟩, found, read, fun scope doc => ?_⟩
  have same : path = ⟨context.start, context.tests ++ rest⟩ := by rw [split, ← h.same_start]
  rw [same]
  exact selects_append scope doc context.start context.tests rest .document

/-- A path below the context of a loop selects the same nodes when it is rewritten for the loop. The
ends of both texts are trimmed, which must not shorten a name unless it shortens both in the same
way. -/
theorem relativeTo_selects_same_nodes
    (ends : p.getLast? ≠ some oghamSpace ∧ c.getLast? ≠ some oghamSpace ∨ p = c ∧ steps c ≠ []) :
    SeenFrom p c path context := by
  rcases ends with ⟨path_end, context_end⟩ | ⟨rfl, some_step⟩
  · obtain ⟨rest, split⟩ := h.begins
    have from_document : path.start ≠ .here := h.same_start ▸ h.absolute
    have left : path.texts.drop context.texts.length = rest.map Test.text := by
      simp only [Location.texts, ← split, List.map_append, List.drop_left]
    have readable : rest ≠ [] → Location.Readable rest := by
      have whole := (Location.text_of_read? h.path_read from_document).2
      rw [← split] at whole
      exact whole.suffix
    refine h.seenFrom split (h.relativeTo_eq_remainder path_end context_end) ?_
    rw [left]
    exact Location.read?_remainder readable
  · obtain rfl : path = context := Option.some.inj (h.path_read.symm.trans h.context_read)
    exact h.seenFrom (List.append_nil _) (relativeTo_self some_step) rfl

end Rewriting

theorem phone_type_seen :
    (BeginsWith "//Employee/Phone/@type" "//Employee"
      ⟨.anywhere, [.name "Employee", .name "Phone", .attr "type"]⟩ ⟨.anywhere, [.name "Employee"]⟩ ∧
    SeenFrom "//Employee/Phone/@type" "//Employee"
      ⟨.anywhere, [.name "Employee", .name "Phone", .attr "type"]⟩
      ⟨.anywhere, [.name "Employee"]⟩) ∧
    SeenFrom "//a\u1680" "//a\u1680" ⟨.anywhere, [.name "a\u1680"]⟩
      ⟨.anywhere, [.name "a\u1680"]⟩ := by
  have begins : BeginsWith "//Employee/Phone/@type" "//Employee"
      ⟨.anywhere, [.name "Employee", .name "Phone", .attr "type"]⟩
      ⟨.anywhere, [.name "Employee"]⟩ :=
    ⟨by decide, by decide, rfl, by decide, by decide, by decide,
      fun _ => not_windowAt_singleton (by decide)⟩
  have spaced : BeginsWith "//a\u1680" "//a\u1680" ⟨.anywhere, [.name "a\u1680"]⟩
      ⟨.anywhere, [.name "a\u1680"]⟩ :=
    ⟨by decide, by decide, rfl, by decide, by decide, by decide,
      fun _ => not_windowAt_singleton (by decide)⟩
  exact ⟨⟨begins, relativeTo_selects_same_nodes begins (Or.inl ⟨by decide, by decide⟩)⟩,
    relativeTo_selects_same_nodes spaced (Or.inr ⟨rfl, by decide +kernel⟩)⟩

def spacedDocument : List Node :=
  [.element ⟨[], "a"⟩ none [] [.element ⟨[], "b\u1680"⟩ none [] []]]

/-- White space at the end of a text is dropped although it belongs to a name: a context is then not
found, or has no steps left, and a path reads another element. -/
theorem spaced_names_not_seen :
    (∃ path context, BeginsWith "//a\u1680/b" "//a\u1680" path context ∧
      ¬ SeenFrom "//a\u1680/b" "//a\u1680" path context) ∧
    (∃ path context, BeginsWith "//\u1680" "//\u1680" path context ∧
      ¬ SeenFrom "//\u1680" "//\u1680" path context) ∧
    ∃ path context, BeginsWith "//a/b\u1680" "//a" path context ∧
      ¬ SeenFrom "//a/b\u1680" "//a" path context := by
  refine ⟨⟨⟨.anywhere, [.name "a\u1680", .name "b"]⟩, ⟨.anywhere, [.name "a\u1680"]⟩, ?_, ?_⟩,
    ⟨⟨.anywhere, [.name "\u1680"]⟩, ⟨.anywhere, [.name "\u1680"]⟩, ?_, ?_⟩,
    ⟨.anywhere, [.name "a", .name "b\u1680"]⟩, ⟨.anywhere, [.name "a"]⟩, ?_, ?_⟩
  · exact ⟨by decide, by decide, rfl, by decide, by decide, by decide,
      fun _ => not_windowAt_singleton (by decide)⟩
  · rintro ⟨r, rest, found, _⟩
    have lost : relativeTo "//a\u1680/b" "//a\u1680" = none := by decide +kernel
    rw [lost] at found
    cases found
  · exact ⟨by decide, by decide, rfl, by decide, by decide, by decide,
      fun _ => not_windowAt_singleton (by decide)⟩
  · rintro ⟨r, rest, found, _⟩
    have lost : relativeTo "//\u1680" "//\u1680" = none := by decide +kernel
    rw [lost] at found
    cases found
  · exact ⟨by decide, by decide, rfl, by decide, by decide, by decide,
      fun _ => not_windowAt_singleton (by decide)⟩
  · rintro ⟨r, rest, found, read, same⟩
    have shorter : relativeTo "//a/b\u1680" "//a" = some "b".toList := by decide +kernel
    have other : Location.read? "b" = some ⟨.here, [.name "b"]⟩ := by decide
    obtain rfl : "b".toList = r := Option.some.inj (shorter.symm.trans found)
    obtain rfl : ⟨.here, [.name "b"]⟩ = rest := Option.some.inj (other.symm.trans read)
    have selected : ⟨[0, 0], none⟩ ∈ Location.selects [] spacedDocument
        ⟨.anywhere, [.name "a", .name "b\u1680"]⟩ .document := by
      simp only [Location.selects, Set.mem_iUnion]
      exact ⟨.document, ⟨rfl, Or.inl rfl⟩, by decide⟩
    rw [same, Set.mem_iUnion₂] at selected
    obtain ⟨⟨path, attr⟩, _, step⟩ := selected
    cases attr with
    | some i => simp [Location.selects, walk, Test.next] at step
    | none =>
      simp only [Location.selects, walk, Test.next, Set.mem_ofPred_eq, List.mem_flatMap,
        List.mem_filterMap, List.mem_singleton] at step
      obtain ⟨_, ⟨⟨child, i⟩, hchild, hstep⟩, rfl⟩ := step
      obtain ⟨admitted, place⟩ : Test.admits [] (.name "b") child = true ∧ path ++ [i] = [0] ++ [0] := by
        simpa using hstep
      obtain ⟨rfl, -⟩ := List.append_inj' place rfl
      have only_child : childrenAt spacedDocument [0] = [.element ⟨[], "b\u1680"⟩ none [] []] := rfl
      rw [only_child] at hchild
      obtain ⟨rfl, rfl⟩ : child = .element ⟨[], "b\u1680"⟩ none [] [] ∧ i = 0 := by simpa using hchild
      exact absurd admitted (by decide)

end FieldMap.Path
