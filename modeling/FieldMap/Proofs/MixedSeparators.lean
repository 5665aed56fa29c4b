import FieldMap.Proofs.JoinedPieces
import FieldMap.Proofs.NormalPaths

/-!
Dots and slashes between steps. A path may be written with either between any two of its steps: its
normal form has slashes, and the steps of the normal form are the steps that were written. What
stands in brackets is kept, and no step is taken for the name of a file.
-/

namespace FieldMap.Ranges

def apart (rs ss : Ranges) : Bool :=
  rs.all fun r => ss.all fun s => Nat.blt r.2 s.1 || Nat.blt s.2 r.1

theorem not_has_of_apart {rs ss : Ranges} (h : apart rs ss = true) {n : Nat}
    (inside : has rs n = true) : has ss n = false := by
  rw [← Bool.not_eq_true]
  intro other
  obtain ⟨r, hr, low, high⟩ := exists_of_has inside
  obtain ⟨s, hs, from_low, to_high⟩ := exists_of_has other
  have disjoint := List.all_eq_true.mp (List.all_eq_true.mp h r hr) s hs
  simp only [Bool.or_eq_true, Nat.blt_eq] at disjoint
  omega

end FieldMap.Ranges

namespace FieldMap.Path

/-- A step as it can be written next to a dot: outside its brackets it holds neither dot nor slash,
and it is not the ending of a file name. -/
structure IsFreeStep (s : Text) : Prop where
  begins : s.head?.any beginsStep = true
  ends : s.getLast?.any endsStep = true
  closed : balanced s = true
  whole : ∀ x ∈ withDepth 0 s, x.2 = 0 → x.1 ≠ '.' ∧ x.1 ≠ '/'
  named : Text.lowerAscii s ≠ "xml".toList

instance (s : Text) : Decidable (IsFreeStep s) :=
  decidable_of_iff (s.head?.any beginsStep = true ∧ s.getLast?.any endsStep = true ∧
      balanced s = true ∧
      ((withDepth 0 s).all fun x => x.2 ≠ 0 || (x.1 ≠ '.' && x.1 ≠ '/')) = true ∧
      Text.lowerAscii s ≠ "xml".toList) <| by
    constructor
    · rintro ⟨begins, ends, closed, whole, named⟩
      refine ⟨begins, ends, closed, fun x member outside => ?_, named⟩
      simpa [outside] using List.all_eq_true.mp whole x member
    · intro h
      refine ⟨h.begins, h.ends, h.closed, List.all_eq_true.mpr fun x member => ?_, h.named⟩
      by_cases outside : x.2 = 0
      · simpa [outside] using h.whole x member outside
      · simp [outside]

/-- Steps written one after the other, with a dot or a slash between each two of them. -/
inductive Separated : List Text → Text → Prop where
  | single (s : Text) : Separated [s] s
  | cons (s : Text) {mark : Char} {ss : List Text} {t : Text} (either : mark = '.' ∨ mark = '/')
      (later : Separated ss t) : Separated (s :: ss) (s ++ mark :: t)

section Characters

variable {c : Char}

theorem not_isBlank_of_isAlphanumeric (h : isAlphanumeric c = true) : Text.isBlank c = false := by
  have letters : Ranges.apart Text.letterRanges Text.blankRanges = true := by decide +kernel
  have numerals : Ranges.apart Text.numeralRanges Text.blankRanges = true := by decide +kernel
  rcases Bool.or_eq_true_iff.mp h with letter | numeral
  · exact Ranges.not_has_of_apart letters letter
  · exact Ranges.not_has_of_apart numerals numeral

theorem not_isBlank_of_endsStep (h : endsStep c = true) : Text.isBlank c = false := by
  simp only [endsStep, Bool.or_eq_true, decide_eq_true_eq] at h
  rcases h with (((name | rfl) | rfl) | rfl) | rfl
  · exact not_isBlank_of_isAlphanumeric name
  all_goals decide

theorem not_isBlank_of_beginsStep (h : beginsStep c = true) : Text.isBlank c = false := by
  simp only [beginsStep, Bool.or_eq_true, decide_eq_true_eq] at h
  rcases h with ((letter | rfl) | rfl) | rfl
  · exact not_isBlank_of_isAlphanumeric (Bool.or_eq_true_iff.mpr (Or.inl letter))
  all_goals decide

theorem eq_dot_of_toLower (h : c.toLower = '.') : c = '.' := by
  unfold Char.toLower at h
  split at h
  · next upper =>
    have code : c.val + ('a'.val - 'A'.val) = '.'.val := congrArg Char.val h
    have low : 'A'.val ≤ c.val := upper.1
    have high : c.val ≤ 'Z'.val := upper.2
    rw [← UInt32.toNat_inj, UInt32.toNat_add] at code
    rw [UInt32.le_iff_toNat_le] at low high
    simp at code low high
    omega
  · exact h

end Characters

theorem separateDots_append {before : Option Char} {depth : Nat} {u : Text}
    (kept : ∀ x ∈ withDepth depth u, x.2 = 0 → x.1 ≠ '.') (v : Text) :
    separateDots before depth (u ++ v) =
      u ++ separateDots (u.getLast?.or before) (depthAfter depth u) v := by
  induction u generalizing before depth with
  | nil => rfl
  | cons c cs ih =>
    rw [withDepth, List.forall_mem_cons] at kept
    have same : separator before depth c (cs ++ v).head? = c :=
      if_neg fun dot => kept.1 dot.2.1 dot.1
    have last : (c :: cs).getLast?.or before = cs.getLast?.or (some c) := by
      rw [List.getLast?_cons]
      cases cs.getLast? <;> rfl
    rw [List.cons_append, separateDots_cons, same, ih kept.2, last]
    rfl

theorem ne_slash {t : Text} (free : '/' ∉ t) : ∀ c ∈ t, decide (c ≠ '/') = true := by
  intro c hc
  refine decide_eq_true ?_
  rintro rfl
  exact free hc

theorem depthAfter_of_not_mem {t : Text} (none : '[' ∉ t) : depthAfter 0 t = 0 := by
  induction t with
  | nil => rfl
  | cons c cs ih =>
    rw [List.mem_cons, not_or] at none
    rw [depthAfter_cons, depthStep_zero (Ne.symm none.1), ih none.2]

namespace IsFreeStep

variable {s : Text} (h : IsFreeStep s)

include h

theorem ne_nil : s ≠ [] := by
  rintro rfl
  cases h.begins

theorem isPiece : IsPiece s := by
  refine ⟨?_, depthAfter_of_balancedFrom h.closed⟩
  have uncut : ∀ x ∈ withDepth 0 s, isOuterSlash x = false := by
    intro x member
    by_contra outer
    simp only [isOuterSlash, Bool.not_eq_false, Bool.and_eq_true, decide_eq_true_eq] at outer
    exact (h.whole x member outer.2).2 outer.1
  rw [← map_splitOnP_withDepth, List.splitOnP_eq_singleton uncut, List.map_singleton,
    map_fst_withDepth]

theorem bracket_before {before after : Text} {c : Char} (split : s = before ++ c :: after)
    (mark : c = '.' ∨ c = '/') : '[' ∈ before := by
  by_contra none
  have counted : (c, 0) ∈ withDepth 0 s :=
    mem_withDepth.mpr ⟨before, after, split, depthAfter_of_not_mem none⟩
  have outside := h.whole (c, 0) counted rfl
  exact mark.elim outside.1 outside.2

theorem dots_inside : ∀ x ∈ withDepth 0 s, x.2 = 0 → x.1 ≠ '.' := fun x member outside =>
  (h.whole x member outside).1

theorem not_mem_of_head (none : '[' ∉ s.takeWhile (· ≠ '/')) : '/' ∉ s ∧ '.' ∉ s := by
  have slash : '/' ∉ s := by
    intro member
    cases rest : s.dropWhile (· ≠ '/') with
    | nil => exact absurd (List.dropWhile_eq_nil_iff.mp rest '/' member) (by simp)
    | cons c cs =>
      have first : (decide (c ≠ '/')) = false := Text.head?_dropWhile (t := s) (by rw [rest]; rfl)
      have split : s = s.takeWhile (· ≠ '/') ++ c :: cs := by
        rw [← rest, List.takeWhile_append_dropWhile]
      exact none (h.bracket_before split (Or.inr (by simpa using first)))
  refine ⟨slash, fun member => ?_⟩
  have whole : s.takeWhile (· ≠ '/') = s := List.takeWhile_eq_self_iff.mpr (ne_slash slash)
  obtain ⟨before, after, split⟩ := List.append_of_mem member
  rw [whole, split] at none
  exact none (List.mem_append_left _ (h.bracket_before split (Or.inl rfl)))

end IsFreeStep

def lastPart (t : Text) : Option Text :=
  (List.splitOn '.' t).getLast?

theorem lastPart_append (u v : Text) : lastPart (u ++ '.' :: v) = lastPart v := by
  rw [lastPart, lastPart, List.splitOn_eq_splitOnP, List.splitOnP_append_cons u v (by rfl),
    List.getLast?_append_of_ne_nil _ (List.splitOnP_ne_nil _ v), List.splitOn_eq_splitOnP]

theorem lastPart_of_not_mem {t : Text} (free : '.' ∉ t) : lastPart t = some t := by
  have uncut : ∀ c ∈ t, (c == '.') = false := by
    intro c hc
    refine beq_eq_false_iff_ne.mpr ?_
    rintro rfl
    exact free hc
  rw [lastPart, List.splitOn_eq_splitOnP, List.splitOnP_eq_singleton uncut]
  rfl

theorem lastPart_of_isFileName {name : Text} (h : isFileName name = true) :
    '[' ∉ name ∧ lastPart (Text.lowerAscii name) = some "xml".toList := by
  simp only [isFileName, Bool.and_eq_true, Bool.not_eq_true'] at h
  obtain ⟨⟨-, ending⟩, plain⟩ := h
  obtain ⟨front, whole⟩ := List.isSuffixOf_iff_suffix.mp ending
  refine ⟨fun bracket => ?_, ?_⟩
  · exact List.any_eq_false.mp plain '[' bracket (by simp)
  · rw [← whole]
    exact (lastPart_append front "xml".toList).trans (lastPart_of_not_mem (by decide))

theorem mem_takeWhile_append {p : Char → Bool} {c : Char} {t u : Text} (h : c ∈ t.takeWhile p) :
    c ∈ (t ++ u).takeWhile p := by
  rw [List.takeWhile_append]
  split
  · exact List.mem_append_left _ ((List.takeWhile_prefix p).subset h)
  · exact h

namespace Separated

variable {steps : List Text} {t : Text} (spelled : Separated steps t)
  (free : ∀ s ∈ steps, IsFreeStep s)

include spelled free

theorem lastPart_ne (none : '[' ∉ t.takeWhile (· ≠ '/')) (slash : '/' ∈ t) :
    lastPart (Text.lowerAscii (t.takeWhile (· ≠ '/'))) ≠ some "xml".toList := by
  induction spelled with
  | single s => exact absurd slash ((free s List.mem_cons_self).not_mem_of_head none).1
  | @cons s mark ss t either later ih =>
    rw [List.forall_mem_cons] at free
    have clear := free.1.not_mem_of_head (mt mem_takeWhile_append none)
    rw [List.takeWhile_append_of_pos (ne_slash clear.1)] at none ⊢
    rcases either with rfl | rfl
    · -- The dot is no end: what stands after it decides.
      have lower : Text.lowerAscii (s ++ '.' :: t.takeWhile (· ≠ '/')) =
          Text.lowerAscii s ++ '.' :: Text.lowerAscii (t.takeWhile (· ≠ '/')) := List.map_append
      rw [List.takeWhile_cons_of_pos (by decide)] at none ⊢
      rw [lower, lastPart_append]
      refine ih free.2 (fun bracket => none ?_) (by simpa [clear.1] using slash)
      exact List.mem_append_right _ (List.mem_cons_of_mem _ bracket)
    · have undotted : '.' ∉ Text.lowerAscii s := by
        intro dot
        obtain ⟨c, hc, lower⟩ := List.mem_map.mp dot
        exact clear.2 (eq_dot_of_toLower lower ▸ hc)
      rw [List.takeWhile_cons_of_neg (by decide), List.append_nil, lastPart_of_not_mem undotted]
      exact fun same => free.1.named (Option.some_inj.mp same)

theorem dropFileName_eq : dropFileName t = t := by
  unfold dropFileName
  split
  · rfl
  · next c rest cut =>
    refine if_neg fun file => ?_
    obtain ⟨none, last⟩ := lastPart_of_isFileName file
    have first : decide (c ≠ '/') = false := Text.head?_dropWhile (t := t) (by rw [cut]; rfl)
    have slash : '/' ∈ t := by
      obtain rfl : c = '/' := by simpa using first
      exact (List.dropWhile_suffix _).subset (cut ▸ List.mem_cons_self)
    exact spelled.lastPart_ne free none slash last

theorem begins : t.head?.any beginsStep = true := by
  cases spelled with
  | single => exact (free t List.mem_cons_self).begins
  | cons s either later =>
    have first := free s List.mem_cons_self
    rw [List.head?_append_of_ne_nil _ first.ne_nil]
    exact first.begins

theorem ne_nil : t ≠ [] := by
  rintro rfl
  cases spelled.begins free

theorem ends : t.getLast?.any endsStep = true := by
  induction spelled with
  | single s => exact (free s List.mem_cons_self).ends
  | @cons s mark ss t either later ih =>
    have rest := (List.forall_mem_cons.mp free).2
    rw [List.append_cons, List.getLast?_append_of_ne_nil _ (later.ne_nil rest)]
    exact ih rest

theorem trim_eq : Text.trim t = t := by
  refine Text.trim_eq_self (fun c first => ?_) (fun c last => ?_)
  · have begins := spelled.begins free
    rw [Option.mem_def.mp first] at begins
    exact not_isBlank_of_beginsStep begins
  · have ends := spelled.ends free
    rw [Option.mem_def.mp last] at ends
    exact not_isBlank_of_endsStep ends

theorem separateDots_eq (before : Option Char) :
    separateDots before 0 t = List.intercalate "/" steps := by
  induction spelled generalizing before with
  | single s =>
    have alone : separateDots before 0 (s ++ []) = s ++ [] :=
      separateDots_append (free s List.mem_cons_self).dots_inside []
    simpa using alone
  | @cons s mark ss t either later ih =>
    rw [List.forall_mem_cons] at free
    obtain ⟨last, e⟩ : ∃ last, s.getLast? = some last :=
      Option.isSome_iff_exists.mp (by simpa using free.1.ne_nil)
    have ends : endsStep last = true := by
      have ends := free.1.ends
      rwa [e] at ends
    have slash : separator (some last) 0 mark t.head? = '/' := by
      rcases either with rfl | rfl
      · exact if_pos ⟨rfl, rfl, ends, later.begins free.2⟩
      · exact if_neg (by simp)
    have flat : depthStep 0 mark = 0 := by
      rcases either with rfl | rfl <;> rfl
    obtain ⟨next, rest, rfl⟩ : ∃ next rest, ss = next :: rest := by
      cases later with
      | single => exact ⟨_, _, rfl⟩
      | cons => exact ⟨_, _, rfl⟩
    rw [separateDots_append free.1.dots_inside, depthAfter_of_balancedFrom free.1.closed, e,
      Option.some_or, separateDots_cons, slash, flat, ih free.2, List.intercalate_cons_cons]
    simp

theorem cleaned_eq : cleaned t = List.intercalate "/" steps := by
  rw [cleaned, spelled.trim_eq free, spelled.dropFileName_eq free, spelled.separateDots_eq free]

end Separated

section Joined

variable {first : Text} {others : List Text} (free : ∀ s ∈ first :: others, IsFreeStep s)

include free

theorem anchor_intercalate : anchor (List.intercalate "/" (first :: others)) =
    (if first.head? = some '*' then [] else "//".toList) ++ List.intercalate "/" (first :: others) := by
  have own := free first List.mem_cons_self
  obtain ⟨c, cs, rfl⟩ := List.exists_cons_of_ne_nil own.ne_nil
  have slash : c ≠ '/' := by
    rintro rfl
    have neither : beginsStep '/' = false := by decide
    exact Bool.false_ne_true (neither.symm.trans own.begins)
  have start : (List.intercalate "/" ((c :: cs) :: others)).head? = some c :=
    Text.head?_intercalate own.ne_nil
  obtain ⟨rest, e⟩ := List.head?_eq_some_iff.mp start
  rw [e]
  by_cases wild : c = '*'
  · simp [anchor, wild]
  · simp [anchor, slash, wild]

theorem steps_anchor_intercalate (trimmed : Text.trim (anchor (List.intercalate "/" (first :: others))) =
      anchor (List.intercalate "/" (first :: others))) :
    steps (anchor (List.intercalate "/" (first :: others))) = first :: others := by
  have pieces : ∀ s ∈ first :: others, IsPiece s := fun s hs => (free s hs).isPiece
  have full : (first :: others).filter (· ≠ []) = first :: others :=
    List.filter_eq_self.mpr fun s hs => decide_eq_true (free s hs).ne_nil
  have closed : depthAfter 0 (anchor (List.intercalate "/" (first :: others))) = 0 := by
    rcases anchor_eq_or (t := List.intercalate "/" (first :: others)) with same | slashes
    · rw [same, depthAfter_intercalate pieces]
    · rw [slashes]
      exact depthAfter_intercalate pieces
  rw [steps_eq_outerSteps (by rwa [trimmed]), trimmed]
  rcases anchor_eq_or (t := List.intercalate "/" (first :: others)) with same | slashes
  · rw [same, outerSteps_intercalate pieces, full]
  · have lead : outerSteps ('/' :: '/' :: List.intercalate "/" (first :: others)) =
        outerSteps (List.intercalate "/" (first :: others)) := rfl
    rw [slashes, lead, outerSteps_intercalate pieces, full]

end Joined

/-- A path written with dots and slashes between its steps has the same normal form whichever stand
there: the steps with slashes, searched for anywhere unless the first begins with a wildcard. Its
steps are the steps that were written. -/
theorem normalize_separated {first : Text} {others : List Text} {t : Text}
    (spelled : Separated (first :: others) t) (free : ∀ s ∈ first :: others, IsFreeStep s) :
    (normalize t).path = (if first.head? = some '*' then [] else "//".toList) ++
        List.intercalate "/" (first :: others) ∧
      steps (normalize t).path = first :: others := by
  have given : Text.trim t ≠ [] := by
    rw [spelled.trim_eq free]
    exact spelled.ne_nil free
  have path : (normalize t).path = anchor (List.intercalate "/" (first :: others)) := by
    rw [normalize, if_neg given, ← spelled.cleaned_eq free]
  have normal : IsNormal (normalize t).path :=
    isNormal_normalize (mt (Text.trim_eq_nil_iff t).mpr given)
  have trimmed := normal.trimmed
  rw [path] at trimmed ⊢
  exact ⟨anchor_intercalate free, steps_anchor_intercalate free trimmed⟩

def orderSteps : List Text :=
  ["Order[Line[a.b/c]/@no]", "*[1.5]", "@no"]

def orderPath : Text :=
  "Order[Line[a.b/c]/@no]/*[1.5].@no"

theorem orderPath_normalized :
    Separated orderSteps orderPath ∧ (∀ s ∈ orderSteps, IsFreeStep s) ∧
      (normalize orderPath).path = "//Order[Line[a.b/c]/@no]/*[1.5]/@no".toList ∧
      steps (normalize orderPath).path = orderSteps := by
  have parts : orderPath = "Order[Line[a.b/c]/@no]".toList ++
      '/' :: ("*[1.5]".toList ++ '.' :: "@no".toList) := by
    decide +kernel
  have spelled : Separated orderSteps orderPath := by
    rw [parts]
    exact .cons _ (Or.inr rfl) (.cons _ (Or.inl rfl) (.single _))
  have free : ∀ s ∈ orderSteps, IsFreeStep s := by decide +kernel
  obtain ⟨path, written⟩ := normalize_separated spelled free
  exact ⟨spelled, free, path.trans (by decide +kernel), written⟩

end FieldMap.Path
