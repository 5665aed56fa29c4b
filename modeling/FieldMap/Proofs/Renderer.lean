import FieldMap.Proofs.BareMarkup
import FieldMap.Proofs.NestedSteps
import FieldMap.Stylesheet.Sheet

/-!
Sheets written call by call. A renderer opens and closes tags by separate calls and keeps a stack of
the loops it is in, to write paths as seen from the innermost one. What it has written between two
states is described by the lines of the sheet: the calls are the steps of the lines, and the renderer
is at the same depth and in the same loops again.
-/

namespace FieldMap.Stylesheet

open Markup (Tag Inline Step allSteps AllNamed IsTagName)

/-- A sheet as far as it is written. -/
structure Renderer where
  depth : Nat
  /-- The paths of the loops around the next line, innermost first. -/
  loops : List Text
  calls : List Step

namespace Renderer

def blank : Renderer :=
  ⟨0, [], []⟩

def call (r : Renderer) (step : Step) : Renderer :=
  { r with depth := step.depthAfter r.depth, calls := r.calls ++ [step] }

def line (r : Renderer) (element : Inline) : Renderer :=
  r.call (.line element.write)

def note (r : Renderer) (text : Text) : Renderer :=
  r.call (.comment text)

def openTag (r : Renderer) (tag : Tag) : Renderer :=
  r.call (.start tag.startText)

def closeTag (r : Renderer) (name : Text) : Renderer :=
  r.call (.finish ("</" ++ name ++ ">"))

def context (r : Renderer) : Context :=
  r.loops.head?

def openLoop (r : Renderer) (path : Text) : Renderer :=
  { r.openTag (instruction "xsl:for-each" "select" (loopSelect path r.context)) with
    loops := path :: r.loops }

def closeLoop (r : Renderer) : Renderer :=
  { r with loops := r.loops.tail }.closeTag "xsl:for-each"

def enter (r : Renderer) (path? : Option Text) : Renderer :=
  match path? with
  | some path => r.openLoop path
  | none => r

def leave (r : Renderer) (path? : Option Text) : Renderer :=
  if path?.isSome then r.closeLoop else r

/-- A part of the sheet with a stack of loops of its own. -/
def apart (r : Renderer) (loops : List Text) (part : Renderer → Renderer) : Renderer :=
  { part { r with loops } with loops := r.loops }

def dateChoice (r : Renderer) (select : Text) : Renderer :=
  r.openTag (Tag.of "xsl:choose")
    |>.line (.around (instruction "xsl:when" "test" select) (valueOf select))
    |>.line (.around (Tag.of "xsl:otherwise") (valueOf currentDateTime))
    |>.closeTag "xsl:choose"

def begun : Renderer :=
  blank.call (.line declaration)

def sheet (header : Tag) (body : Renderer → Renderer) : Renderer :=
  body (begun.openTag header) |>.closeTag "xsl:stylesheet"

end Renderer

/-- From one renderer to the other, exactly these lines are written: at the depth and in the loops at
which it ends again, and with blocks that are named as tags are read. -/
structure Writes (r : Renderer) (lines : List Markup) (r' : Renderer) : Prop where
  depth : r'.depth = r.depth
  loops : r'.loops = r.loops
  calls : r'.calls = r.calls ++ allSteps lines
  named : AllNamed lines

namespace Writes

variable {r r' r'' : Renderer} {lines body : List Markup} {tag : Tag}

theorem nothing (r : Renderer) : Writes r [] r :=
  ⟨rfl, rfl, (List.append_nil _).symm, trivial⟩

theorem context (h : Writes r lines r') : r'.context = r.context :=
  congrArg List.head? h.loops

theorem andThen (h : Writes r lines r') (next : Writes r' body r'') :
    Writes r (lines ++ body) r'' where
  depth := next.depth.trans h.depth
  loops := next.loops.trans h.loops
  calls := by rw [next.calls, h.calls, Markup.allSteps_append, List.append_assoc]
  named := Markup.allNamed_append.mpr ⟨h.named, next.named⟩

theorem line (h : Writes r lines r') (element : Inline) :
    Writes r (lines ++ [.line element]) (r'.line element) :=
  h.andThen ⟨rfl, rfl, rfl, trivial, trivial⟩

theorem note (h : Writes r lines r') (text : Text) :
    Writes r (lines ++ [.comment text]) (r'.note text) :=
  h.andThen ⟨rfl, rfl, rfl, trivial, trivial⟩

theorem block (h : Writes r lines r') (inner : Writes (r'.openTag tag) body r'')
    (name : IsTagName tag.name := by exact rfl) :
    Writes r (lines ++ [.block tag body]) (r''.closeTag tag.name) := by
  refine h.andThen ⟨?_, inner.loops, ?_, ⟨name, inner.named⟩, trivial⟩
  · have deeper : r''.depth = r'.depth + 1 := inner.depth
    change r''.depth - 1 = r'.depth
    rw [deeper, Nat.add_sub_cancel]
  · have opened : r''.calls = r'.calls ++ [.start tag.startText] ++ allSteps body := inner.calls
    change r''.calls ++ [.finish tag.endText] = _
    rw [opened]
    simp [Markup.allSteps, Markup.steps]

theorem looped {path? : Option Text} {body : Context → List Markup}
    (inner : Writes (r.enter path?) (body (r.enter path?).context) r') :
    Writes r (looped path? r.context body) (r'.leave path?) := by
  cases path? with
  | none => exact inner
  | some path =>
    -- Under the loop, the stack is the one around it with the path on top.
    have pushed : r'.loops = path :: r.loops := inner.loops
    have popped : Writes (r.openTag (instruction "xsl:for-each" "select" (loopSelect path r.context)))
        (body (some path)) { r' with loops := r'.loops.tail } :=
      ⟨inner.depth, congrArg List.tail pushed, inner.calls, inner.named⟩
    exact (nothing r).block popped

theorem each {α : Type} {step : Renderer → α → Renderer} (lines : Context → α → List Markup)
    (h : ∀ r a, Writes r (lines r.context a) (step r a)) (as : List α) (r : Renderer) :
    Writes r (as.flatMap (lines r.context)) (as.foldl step r) := by
  induction as generalizing r with
  | nil => exact nothing r
  | cons a as ih =>
    have first := h r a
    have others := ih (step r a)
    rw [first.context] at others
    exact first.andThen others

theorem apart {loops : List Text} {part : Renderer → Renderer}
    (h : Writes { r with loops } lines (part { r with loops })) :
    Writes r lines (r.apart loops part) :=
  ⟨h.depth, rfl, h.calls, h.named⟩

theorem dateChoice (h : Writes r lines r') (select : Text) :
    Writes r (lines ++ [dateChoice select]) (r'.dateChoice select) :=
  h.block (((nothing _).line _).line _)

theorem balanced (h : Writes Renderer.begun lines r) :
    Markup.Balanced r.calls := by
  have calls : r.calls = .line declaration :: allSteps lines := h.calls
  apply Markup.balanced_of_opened?
  rw [calls, Markup.opened?_cons rfl, Markup.opened?_allSteps [] lines h.named]

end Writes

end FieldMap.Stylesheet
