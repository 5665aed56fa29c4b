import FieldMap.Proofs.SourceSteps

/-!
Steps found by counting. One pass over a path counts the brackets that are open before each
character; the path is cut at the slashes where none is open, or at every slash if some bracket is
still open at the end. This is where the grammar of paths, in which a predicate may hold further
predicates, divides a path, and what is split at every slash is what the grammar does not know.
-/

namespace FieldMap.Path

/-- Text between a bracket and the one that closes it. -/
inductive Inside : Text → Prop where
  | nil : Inside []
  | plain {c : Char} {t : Text} (opens : c ≠ '[') (closes : c ≠ ']') (later : Inside t) :
      Inside (c :: t)
  | predicate {inner t : Text} (within : Inside inner) (later : Inside t) :
      Inside ('[' :: (inner ++ ']' :: t))

/-- A path of the grammar and its pieces. Outside predicates a closing bracket is plain text. -/
inductive IsPath : Text → List Text → Prop where
  | nil : IsPath [] [[]]
  | slash {t : Text} {pieces : List Text} (later : IsPath t pieces) :
      IsPath ('/' :: t) ([] :: pieces)
  | plain {c : Char} {t : Text} {pieces : List Text} (slash : c ≠ '/') (opens : c ≠ '[')
      (later : IsPath t pieces) : IsPath (c :: t) (onFirst [c] pieces)
  | predicate {inner t : Text} {pieces : List Text} (within : Inside inner)
      (later : IsPath t pieces) :
      IsPath ('[' :: (inner ++ ']' :: t)) (onFirst ('[' :: (inner ++ [']'])) pieces)

/-- The characters of a text, each with the number of brackets open before it. -/
def withDepth : (depth : Nat) → Text → List (Char × Nat)
  | _, [] => []
  | depth, c :: cs => (c, depth) :: withDepth (depthStep depth c) cs

def isOuterSlash (x : Char × Nat) : Bool :=
  x.1 = '/' && x.2 = 0

def scannedPieces (t : Text) : List Text :=
  if depthAfter 0 t = 0 then ((withDepth 0 t).splitOnP isOuterSlash).map (List.map Prod.fst)
  else List.splitOn '/' t

section Grammar

variable {inner t : Text} {pieces : List Text}

theorem Inside.outerPieces_append (h : Inside inner) (depth : Nat) (t : Text) :
    depthAfter (depth + 1) (inner ++ ']' :: t) = depthAfter depth t ∧
      outerPieces (depth + 1) (inner ++ ']' :: t) =
        onFirst (inner ++ [']']) (outerPieces depth t) := by
  -- A predicate raises the depth up to its last bracket, so no slash in it divides the path.
  induction h generalizing depth t with
  | nil => exact ⟨rfl, outerPieces_inside depth ']' t⟩
  | @plain c cs opens closes _ ih =>
    have rest := ih depth t
    rw [List.cons_append, depthAfter_cons, outerPieces_inside, depthStep_other opens closes, rest.1,
      rest.2, onFirst_onFirst]
    exact ⟨rfl, rfl⟩
  | @predicate first second _ _ ih₁ ih₂ =>
    have whole : '[' :: (first ++ ']' :: second) ++ ']' :: t =
        '[' :: (first ++ ']' :: (second ++ ']' :: t)) := by simp
    have opened := ih₁ (depth + 1) (second ++ ']' :: t)
    have closed := ih₂ depth t
    rw [whole, depthAfter_cons, outerPieces_inside, depthStep_open, opened.1, opened.2, closed.1,
      closed.2, onFirst_onFirst, onFirst_onFirst]
    exact ⟨rfl, by simp⟩

theorem IsPath.eq_outerPieces (h : IsPath t pieces) :
    depthAfter 0 t = 0 ∧ pieces = outerPieces 0 t := by
  induction h with
  | nil => exact ⟨rfl, rfl⟩
  | slash _ ih => exact ⟨ih.1, by rw [outerPieces_slash, ← ih.2]⟩
  | @plain c cs pieces slash opens _ ih =>
    rw [depthAfter_cons, outerPieces_other slash, depthStep_zero opens, ← ih.2]
    exact ⟨ih.1, rfl⟩
  | @predicate inner cs pieces within _ ih =>
    have closed := within.outerPieces_append 0 cs
    rw [depthAfter_cons, outerPieces_other (by decide), depthStep_open, closed.1, closed.2,
      onFirst_onFirst, ← ih.2]
    exact ⟨ih.1, rfl⟩

theorem inside_of_closing? {part rest : Text} {shorter : rest.length < t.length}
    (h : closing? t = some ⟨(part, rest), shorter⟩) :
    ∃ inner, Inside inner ∧ part = inner ++ [']'] ∧ t = inner ++ ']' :: rest := by
  fun_induction closing? t generalizing part rest with
  | case1 => cases h
  | case2 cs =>
    cases h
    exact ⟨[], .nil, rfl, rfl⟩
  | case3 => cases h
  | case4 => cases h
  | case5 cs first middle _ found _ outer last _ foundNext _ ih₂ ih₁ =>
    cases h
    obtain ⟨within, inside, rfl, rfl⟩ := ih₂ found
    obtain ⟨later, insideLater, rfl, rfl⟩ := ih₁ foundNext
    exact ⟨'[' :: (within ++ ']' :: later), .predicate inside insideLater, by simp, by simp⟩
  | case6 => cases h
  | case7 c cs closes opens part middle _ found ih =>
    cases h
    obtain ⟨within, inside, rfl, rfl⟩ := ih found
    exact ⟨c :: within, .plain opens closes inside, rfl, rfl⟩

theorem isPath_of_pieces? (h : pieces? t = some pieces) : IsPath t pieces := by
  fun_induction pieces? t generalizing pieces with
  | case1 =>
    cases h
    exact .nil
  | case2 cs ih =>
    obtain ⟨later, found, rfl⟩ := Option.map_eq_some_iff.mp h
    exact .slash (ih found)
  | case3 => cases h
  | case4 cs part rest _ closed _ _ ih =>
    obtain ⟨later, found, rfl⟩ := Option.map_eq_some_iff.mp h
    obtain ⟨inner, inside, rfl, rfl⟩ := inside_of_closing? closed
    exact .predicate inside (ih found)
  | case5 c cs slash opens ih =>
    obtain ⟨later, found, rfl⟩ := Option.map_eq_some_iff.mp h
    exact .plain slash opens (ih found)

/-- The grammar knows exactly the texts that leave no bracket open. -/
theorem isPath_iff : IsPath t pieces ↔ depthAfter 0 t = 0 ∧ pieces = outerPieces 0 t := by
  refine ⟨IsPath.eq_outerPieces, ?_⟩
  rintro ⟨closed, rfl⟩
  exact isPath_of_pieces? (by rw [pieces?_eq, if_pos closed])

end Grammar

@[simp] theorem map_fst_withDepth (depth : Nat) (t : Text) :
    (withDepth depth t).map Prod.fst = t := by
  induction t generalizing depth with
  | nil => rfl
  | cons c cs ih => rw [withDepth, List.map_cons, ih]

theorem mem_withDepth {depth d : Nat} {t : Text} {c : Char} :
    (c, d) ∈ withDepth depth t ↔
      ∃ before after, t = before ++ c :: after ∧ depthAfter depth before = d := by
  induction t generalizing depth with
  | nil => simp [withDepth]
  | cons e es ih =>
    rw [withDepth, List.mem_cons, ih]
    constructor
    · rintro (first | ⟨before, after, rfl, outside⟩)
      · cases first
        exact ⟨[], es, rfl, rfl⟩
      · exact ⟨e :: before, after, rfl, outside⟩
    · rintro ⟨before, after, whole, outside⟩
      cases before with
      | nil =>
        cases whole
        cases outside
        exact Or.inl rfl
      | cons b before =>
        cases whole
        exact Or.inr ⟨before, after, rfl, outside⟩

theorem map_splitOnP_withDepth (depth : Nat) (t : Text) :
    ((withDepth depth t).splitOnP isOuterSlash).map (List.map Prod.fst) = outerPieces depth t := by
  induction t generalizing depth with
  | nil => rfl
  | cons c cs ih =>
    have rest := ih (depthStep depth c)
    rw [withDepth, List.splitOnP_cons_eq_if_modifyHead, outerPieces]
    by_cases outer : c = '/' ∧ depth = 0
    · obtain ⟨rfl, rfl⟩ := outer
      rw [if_pos (by rfl), if_pos ⟨rfl, rfl⟩, List.map_cons, rest]
      rfl
    · obtain ⟨piece, pieces, e⟩ := List.exists_cons_of_ne_nil
        (List.splitOnP_ne_nil isOuterSlash (withDepth (depthStep depth c) cs))
      rw [e] at rest
      rw [if_neg (by simpa [isOuterSlash] using outer), if_neg outer, ← rest, e]
      rfl

/-- The steps of a path are the non-empty pieces of the one pass, in their order. The pass finds the
pieces of the grammar exactly if no bracket is open at the end, and the steps of a balanced path are
balanced. -/
theorem steps_eq_scanned (path : Text) :
    steps path = (scannedPieces (body path)).filter (· ≠ []) ∧
      (∀ pieces, IsPath (body path) pieces ↔
        depthAfter 0 (body path) = 0 ∧ pieces = scannedPieces (body path)) ∧
      (balanced path = true → ∀ step ∈ steps path, balanced step = true) := by
  refine ⟨?_, ?_, ?_⟩
  · rw [steps, pieces?_eq, scannedPieces, map_splitOnP_withDepth]
    split
    · rfl
    · rw [Option.getD_none]
  · intro pieces
    rw [isPath_iff, scannedPieces, map_splitOnP_withDepth]
    refine and_congr_right fun closed => ?_
    rw [if_pos closed]
  · intro closed step member
    rw [← balanced_trim] at closed
    rw [← steps_trim] at member
    exact SourcePath.balanced_of_mem_steps closed (Text.trim_trim path) member

def nestedPath : Text := " //Order[Line[Code/@kind='a']/Sum]//Line[1]/@no "

theorem nestedPath_scanned :
    depthAfter 0 (body nestedPath) = 0 ∧ balanced nestedPath = true ∧
      steps nestedPath = (["Order[Line[Code/@kind='a']/Sum]", "Line[1]", "@no"] : List Text) ∧
      ∀ step ∈ steps nestedPath, balanced step = true := by
  have closed : balanced nestedPath = true := by decide
  obtain ⟨scanned, -, each⟩ := steps_eq_scanned nestedPath
  exact ⟨by decide, closed, scanned.trans (by decide), each closed⟩

end FieldMap.Path
