import Recognizer.Proofs.SymbolSet.Recipe

/-!
# How two intervals lie to each other

Two intervals that are not empty overlap, touch or are parted by an integer between them, and only
one of these holds.  Each way of comparing intervals says so in its own words: `disjoint` and
`adjacent` by the bounds, the hull by its length, and an insertion by what it merges.  In terms of
the bounds as integers (`overlaps_iff`, `adjacent_iff`, `parted_iff`) they all draw the same line,
at the ends of the 32-bit range too.

An insertion compares intervals that are not empty only: those of a set, with one that begins as a
range and is only ever enlarged (`nonempty_merged_foldl`).
-/

namespace Recognizer

namespace Interval

variable {x y : Interval}

/-- Some integer belongs to both intervals. -/
def Overlaps (x y : Interval) : Prop :=
  ∃ n, x.Spans n ∧ y.Spans n

/-- Some integer lies strictly between the two intervals. -/
def Parted (x y : Interval) : Prop :=
  ∃ n : Int, (x.hi.toInt < n ∧ n < y.lo.toInt) ∨ (y.hi.toInt < n ∧ n < x.lo.toInt)

/-! ## Positions by the bounds -/

theorem overlaps_iff (valid : x.lo.toInt ≤ x.hi.toInt) (validToo : y.lo.toInt ≤ y.hi.toInt) :
    x.Overlaps y ↔ x.lo.toInt ≤ y.hi.toInt ∧ y.lo.toInt ≤ x.hi.toInt := by
  constructor
  · intro overlap
    obtain ⟨n, ⟨startX, stopX⟩, startY, stopY⟩ := overlap
    exact ⟨Int.le_trans startX stopY, Int.le_trans startY stopX⟩
  · intro bounds
    -- The greater of the two starts belongs to both.
    refine ⟨max x.lo.toInt y.lo.toInt, ?_, ?_⟩ <;> unfold Spans <;> omega

theorem parted_iff :
    x.Parted y ↔ x.hi.toInt + 1 < y.lo.toInt ∨ y.hi.toInt + 1 < x.lo.toInt := by
  constructor
  · intro parted
    obtain ⟨n, between⟩ := parted
    omega
  · intro apart
    rcases apart with before | after
    · exact ⟨x.hi.toInt + 1, .inl ⟨Int.lt_succ _, before⟩⟩
    · exact ⟨y.hi.toInt + 1, .inr ⟨Int.lt_succ _, after⟩⟩

theorem adjacent_iff :
    x.adjacent y = true ↔ x.lo.toInt = y.hi.toInt + 1 ∨ y.lo.toInt = x.hi.toInt + 1 := by
  rw [adjacent, Bool.or_eq_true, beq_iff_eq, beq_iff_eq]
  omega

theorem disjoint_iff :
    x.disjoint y = true ↔ y.hi.toInt < x.lo.toInt ∨ x.hi.toInt < y.lo.toInt := by
  rw [disjoint, Bool.or_eq_true, decide_eq_true_iff, decide_eq_true_iff, Int32.lt_iff_toInt_lt,
    Int32.lt_iff_toInt_lt]

theorem adjacent_comm (x y : Interval) : x.adjacent y = y.adjacent x := by
  rw [Bool.eq_iff_iff, adjacent_iff, adjacent_iff]
  exact or_comm

theorem disjoint_comm (x y : Interval) : x.disjoint y = y.disjoint x := by
  rw [Bool.eq_iff_iff, disjoint_iff, disjoint_iff]
  exact or_comm

/-! ## Positions by the lengths -/

theorem natCast_length (valid : x.lo.toInt ≤ x.hi.toInt) :
    (x.length : Int) = x.hi.toInt + 1 - x.lo.toInt := by
  unfold length
  omega

theorem natCast_length_hull (valid : x.lo.toInt ≤ x.hi.toInt) :
    ((x.hull y).length : Int) =
      max x.hi.toInt y.hi.toInt + 1 - min x.lo.toInt y.lo.toInt := by
  rw [natCast_length (hull_nonempty valid), toInt_lo_hull, toInt_hi_hull]

/-- What two intervals have in common is counted once in their hull, and what parts them is counted
in their hull only. -/
theorem length_hull (valid : x.lo.toInt ≤ x.hi.toInt) (validToo : y.lo.toInt ≤ y.hi.toInt) :
    ((x.hull y).length < x.length + y.length ↔ x.Overlaps y) ∧
    ((x.hull y).length = x.length + y.length ↔ x.adjacent y = true) ∧
    ((x.hull y).length > x.length + y.length ↔ x.Parted y) := by
  have both : ((x.hull y).length : Int) = _ := natCast_length_hull valid
  have first : (x.length : Int) = _ := natCast_length valid
  have second : (y.length : Int) = _ := natCast_length validToo
  rw [overlaps_iff valid validToo, adjacent_iff, parted_iff]
  refine ⟨?_, ?_, ?_⟩ <;> omega

/-- One of the three positions holds, and no two of them. -/
theorem exactly_one_position (valid : x.lo.toInt ≤ x.hi.toInt)
    (validToo : y.lo.toInt ≤ y.hi.toInt) :
    (x.Overlaps y ∨ x.adjacent y = true ∨ x.Parted y) ∧
    ¬ (x.Overlaps y ∧ x.adjacent y = true) ∧
    ¬ (x.Overlaps y ∧ x.Parted y) ∧
    ¬ (x.adjacent y = true ∧ x.Parted y) := by
  rw [overlaps_iff valid validToo, adjacent_iff, parted_iff]
  omega

theorem disjoint_eq_false_iff (valid : x.lo.toInt ≤ x.hi.toInt)
    (validToo : y.lo.toInt ≤ y.hi.toInt) : x.disjoint y = false ↔ x.Overlaps y := by
  rw [← Bool.not_eq_true, disjoint_iff, overlaps_iff valid validToo]
  omega

theorem Parted.disjoint (parted : x.Parted y) : x.disjoint y = true := by
  rw [parted_iff] at parted
  rw [disjoint_iff]
  omega

/-! ## What is merged -/

/-- Neither interval precedes the other, with room between them, unless they are parted. -/
theorem not_precedes_iff (valid : x.lo.toInt ≤ x.hi.toInt) (validToo : y.lo.toInt ≤ y.hi.toInt) :
    ¬ y.precedes x = true ∧ ¬ x.precedes y = true ↔ x.Overlaps y ∨ x.adjacent y = true := by
  rw [precedes_iff, precedes_iff, overlaps_iff valid validToo, adjacent_iff]
  omega

end Interval

namespace Insertion

variable {pass : Insertion} {iv : Interval} {stored : List Interval}

/-- The interval becomes a part of the merged one. -/
def Merges (pass : Insertion) (iv : Interval) : Prop :=
  pass.meet iv = { pass with merged := pass.merged.hull iv }

/-- The interval is put to a side of the merged one instead if there is room between the two. -/
theorem merges_iff : pass.Merges iv ↔
    ¬ iv.precedes pass.merged = true ∧ ¬ pass.merged.precedes iv = true := by
  unfold Merges meet
  split
  · rename_i before
    refine iff_of_false (fun same => ?_) fun near => near.1 before
    have size := congrArg (·.before.size) same
    simp at size
  · rename_i notBefore
    split
    · rename_i after
      refine iff_of_false (fun same => ?_) fun near => near.2 after
      have size := congrArg (·.after.size) same
      simp at size
    · rename_i notAfter
      exact iff_of_true rfl ⟨notBefore, notAfter⟩

theorem merged_of_not_merges (apart : ¬ pass.Merges iv) : (pass.meet iv).merged = pass.merged := by
  rw [merges_iff] at apart
  unfold meet
  split
  · rfl
  · rename_i notBefore
    split
    · rfl
    · rename_i notAfter
      exact absurd ⟨notBefore, notAfter⟩ apart

/-- The merged interval is never made empty. -/
theorem nonempty_merged_meet (valid : pass.merged.lo.toInt ≤ pass.merged.hi.toInt) :
    (pass.meet iv).merged.lo.toInt ≤ (pass.meet iv).merged.hi.toInt := by
  by_cases merges : pass.Merges iv
  · rw [merges]
    exact Interval.hull_nonempty valid
  · rw [merged_of_not_merges merges]
    exact valid

theorem nonempty_merged_foldl (valid : pass.merged.lo.toInt ≤ pass.merged.hi.toInt) :
    (stored.foldl meet pass).merged.lo.toInt ≤ (stored.foldl meet pass).merged.hi.toInt := by
  induction stored generalizing pass with
  | nil => exact valid
  | cons iv stored ih => exact ih (nonempty_merged_meet valid)

end Insertion

/-- Two intervals that are not empty overlap, touch or are parted, and only one of these holds. They
are disjoint unless they overlap. Their hull is shorter than the two together if they overlap, as
long if they touch, and longer if they are parted. The order of the two does not matter. When a
range is added to a set, however that is made, a stored interval is merged into what has become of
the range so far if the two overlap or touch, and only then; what they make together has the
integers of both and no others. -/
theorem positions_decide_merging :
    (∀ x y : Interval, x.lo ≤ x.hi → y.lo ≤ y.hi →
      ((x.Overlaps y ∨ x.adjacent y = true ∨ (x.disjoint y = true ∧ x.Parted y)) ∧
        ¬ (x.Overlaps y ∧ x.adjacent y = true) ∧
        ¬ (x.Overlaps y ∧ (x.disjoint y = true ∧ x.Parted y)) ∧
        ¬ (x.adjacent y = true ∧ (x.disjoint y = true ∧ x.Parted y))) ∧
      (x.disjoint y = false ↔ x.Overlaps y) ∧
      ((x.hull y).length < x.length + y.length ↔ x.Overlaps y) ∧
      ((x.hull y).length = x.length + y.length ↔ x.adjacent y = true) ∧
      ((x.hull y).length > x.length + y.length ↔ x.disjoint y = true ∧ x.Parted y)) ∧
    (∀ x y : Interval, x.adjacent y = y.adjacent x ∧ x.disjoint y = y.disjoint x) ∧
    ∀ (recipe : SymbolSet.Recipe) (lo hi : Symbol) (seen rest : List Interval) (iv : Interval),
      lo ≤ hi → recipe.build.intervals.toList = seen ++ iv :: rest →
      let pass := seen.foldl Insertion.meet ⟨#[], ⟨lo, hi⟩, #[]⟩
      pass.merged.lo ≤ pass.merged.hi ∧ iv.lo ≤ iv.hi ∧
      (pass.Merges iv ↔ pass.merged.Overlaps iv ∨ pass.merged.adjacent iv = true) ∧
      (pass.Merges iv → ∀ n, (pass.merged.hull iv).Spans n ↔ pass.merged.Spans n ∨ iv.Spans n) ∧
      (¬ pass.Merges iv → (pass.meet iv).merged = pass.merged) := by
  refine ⟨fun x y nonempty nonemptyToo => ?_, fun x y => ?_, ?_⟩
  · have valid := Int32.le_iff_toInt_le.mp nonempty
    have validToo := Int32.le_iff_toInt_le.mp nonemptyToo
    have parted : x.disjoint y = true ∧ x.Parted y ↔ x.Parted y :=
      and_iff_right_of_imp Interval.Parted.disjoint
    rw [parted]
    exact ⟨Interval.exactly_one_position valid validToo,
      Interval.disjoint_eq_false_iff valid validToo, Interval.length_hull valid validToo⟩
  · exact ⟨Interval.adjacent_comm x y, Interval.disjoint_comm x y⟩
  · intro recipe lo hi seen rest iv ordered split pass
    have stored : iv ∈ recipe.build.intervals.toList := by simp [split]
    have validToo := recipe.canonical_build.nonempty iv stored
    have valid : pass.merged.lo.toInt ≤ pass.merged.hi.toInt :=
      Insertion.nonempty_merged_foldl (Int32.le_iff_toInt_le.mp ordered)
    have merges : pass.Merges iv ↔ _ :=
      Insertion.merges_iff.trans (Interval.not_precedes_iff valid validToo)
    refine ⟨Int32.le_iff_toInt_le.mpr valid, Int32.le_iff_toInt_le.mpr validToo, merges, ?_,
      Insertion.merged_of_not_merges⟩
    intro near
    obtain ⟨notBefore, notAfter⟩ := Insertion.merges_iff.mp near
    exact Interval.spans_hull_iff ⟨valid, validToo⟩ notBefore notAfter

/-- Two halves of the 32-bit range that touch, and a range that bridges what is left when both sides
of the border are taken out. -/
theorem merging_at_border :
    let x : Interval := ⟨Int32.minValue, -1⟩
    let y : Interval := ⟨0, Int32.maxValue⟩
    let recipe : SymbolSet.Recipe := .addRange (.ofRange Int32.minValue (-2)) 1 Int32.maxValue
    let pass := [⟨Int32.minValue, -2⟩].foldl Insertion.meet ⟨#[], ⟨-1, 0⟩, #[]⟩
    (x.lo ≤ x.hi ∧ y.lo ≤ y.hi ∧ (x.hull y).length = x.length + y.length) ∧
      (-1 : Symbol) ≤ 0 ∧
      recipe.build.intervals.toList = [⟨Int32.minValue, -2⟩] ++ ⟨1, Int32.maxValue⟩ :: [] ∧
      pass.Merges ⟨1, Int32.maxValue⟩ := by
  intro x y recipe pass
  obtain ⟨positions, -, merging⟩ := positions_decide_merging
  have nonempty : x.lo ≤ x.hi := by decide
  have nonemptyToo : y.lo ≤ y.hi := by decide
  have ordered : (-1 : Symbol) ≤ 0 := by decide
  have split : recipe.build.intervals.toList =
      [⟨Int32.minValue, -2⟩] ++ ⟨1, Int32.maxValue⟩ :: [] := by decide
  obtain ⟨-, -, -, touching, -⟩ := positions x y nonempty nonemptyToo
  obtain ⟨-, -, merges, -⟩ := merging recipe (-1) 0 _ [] _ ordered split
  exact ⟨⟨nonempty, nonemptyToo, touching.mpr (by decide)⟩, ordered, split,
    merges.mpr (.inr (by decide))⟩

end Recognizer
