import Recognizer.SymbolSet.Basic

/-!
# Insertion into a canonical list

The intervals of a symbol set are `Canonical`: none is empty, they are in increasing order, and at
least one symbol lies between neighbours.

The pass that inserts a range keeps apart what lies before the merged interval and after it. On a
canonical list it does what the recursion `insertInto` does, which leaves the rest alone as soon
as one interval lies after the merged one. That recursion keeps the form and adds exactly the
symbols of the range.
-/

namespace Recognizer

namespace Interval

variable {x y new iv : Interval} {symbol : Symbol} {intervals : List Interval}

/-! ## Bounds as integers -/

theorem toInt_le_of_not_lt {lo hi : Symbol} (notLess : ¬ hi < lo) : lo.toInt ≤ hi.toInt :=
  Int.not_lt.mp (mt Int32.lt_iff_toInt_lt.mpr notLess)

theorem mem_iff : symbol ∈ iv ↔ iv.lo.toInt ≤ symbol.toInt ∧ symbol.toInt ≤ iv.hi.toInt :=
  and_congr Int32.le_iff_toInt_le Int32.le_iff_toInt_le

/-- The integer lies between the bounds. -/
def Spans (iv : Interval) (n : Int) : Prop :=
  iv.lo.toInt ≤ n ∧ n ≤ iv.hi.toInt

theorem mem_iff_spans : symbol ∈ iv ↔ iv.Spans symbol.toInt :=
  mem_iff

theorem precedes_iff : x.precedes y = true ↔ x.hi.toInt + 1 < y.lo.toInt :=
  decide_eq_true_iff

theorem toInt_lo_hull (x y : Interval) : (x.hull y).lo.toInt = min x.lo.toInt y.lo.toInt := by
  change (if x.lo ≤ y.lo then x.lo else y.lo).toInt = _
  split
  · rename_i less
    exact (Int.min_eq_left (Int32.le_iff_toInt_le.mp less)).symm
  · rename_i notLess
    have greater := Int.le_of_not_le (mt Int32.le_iff_toInt_le.mpr notLess)
    exact (Int.min_eq_right greater).symm

theorem toInt_hi_hull (x y : Interval) : (x.hull y).hi.toInt = max x.hi.toInt y.hi.toInt := by
  change (if x.hi ≤ y.hi then y.hi else x.hi).toInt = _
  split
  · rename_i less
    exact (Int.max_eq_right (Int32.le_iff_toInt_le.mp less)).symm
  · rename_i notLess
    have greater := Int.le_of_not_le (mt Int32.le_iff_toInt_le.mpr notLess)
    exact (Int.max_eq_left greater).symm

/-! ## Canonical lists -/

/-- One of the intervals covers the symbol. -/
def Covers (intervals : List Interval) (symbol : Symbol) : Prop :=
  ∃ iv ∈ intervals, symbol ∈ iv

/-- The form that the intervals of a symbol set have. -/
structure Canonical (intervals : List Interval) : Prop where
  nonempty : ∀ iv ∈ intervals, iv.lo.toInt ≤ iv.hi.toInt
  separated : intervals.Pairwise fun x y => x.hi.toInt + 1 < y.lo.toInt

theorem covers_nil : ¬ Covers [] symbol := by
  intro covered
  obtain ⟨iv, listed, -⟩ := covered
  cases listed

theorem covers_cons : Covers (iv :: intervals) symbol ↔ symbol ∈ iv ∨ Covers intervals symbol := by
  simp [Covers]

theorem Canonical.nil : Canonical [] :=
  ⟨by simp, .nil⟩

theorem canonical_cons : Canonical (iv :: intervals) ↔ iv.lo.toInt ≤ iv.hi.toInt ∧
    (∀ y ∈ intervals, iv.hi.toInt + 1 < y.lo.toInt) ∧ Canonical intervals := by
  constructor
  · intro canonical
    obtain ⟨nonempty, separated⟩ := canonical
    obtain ⟨valid, nonempty⟩ := List.forall_mem_cons.mp nonempty
    obtain ⟨apart, separated⟩ := List.pairwise_cons.mp separated
    exact ⟨valid, apart, nonempty, separated⟩
  · intro parts
    obtain ⟨valid, apart, nonempty, separated⟩ := parts
    exact ⟨List.forall_mem_cons.mpr ⟨valid, nonempty⟩, List.pairwise_cons.mpr ⟨apart, separated⟩⟩

theorem Canonical.lo_le_of_mem (canonical : Canonical (iv :: intervals))
    (listed : y ∈ iv :: intervals) : iv.lo.toInt ≤ y.lo.toInt := by
  obtain ⟨valid, apart, -⟩ := canonical_cons.mp canonical
  rcases List.mem_cons.mp listed with rfl | later
  · exact Int.le_refl _
  · have further := apart y later
    omega

/-! ## Insertion by recursion -/

/-- Put `new` into a list of intervals in increasing order, merged with all that it meets. -/
def insertInto (new : Interval) : List Interval → List Interval
  | [] => [new]
  | iv :: rest =>
    if iv.precedes new then iv :: insertInto new rest
    else if new.precedes iv then new :: iv :: rest
    else insertInto (new.hull iv) rest

theorem hull_nonempty (valid : new.lo.toInt ≤ new.hi.toInt) :
    (new.hull iv).lo.toInt ≤ (new.hull iv).hi.toInt := by
  rw [toInt_lo_hull, toInt_hi_hull]
  omega

/-- The hull of two intervals that overlap or touch spans no integers of its own. -/
theorem spans_hull_iff (valid : new.lo.toInt ≤ new.hi.toInt ∧ iv.lo.toInt ≤ iv.hi.toInt)
    (notBefore : ¬ iv.precedes new = true) (notAfter : ¬ new.precedes iv = true) (n : Int) :
    (new.hull iv).Spans n ↔ new.Spans n ∨ iv.Spans n := by
  obtain ⟨validNew, validOld⟩ := valid
  rw [precedes_iff] at notBefore notAfter
  unfold Spans
  rw [toInt_lo_hull, toInt_hi_hull]
  omega

theorem mem_hull_iff (valid : new.lo.toInt ≤ new.hi.toInt ∧ iv.lo.toInt ≤ iv.hi.toInt)
    (notBefore : ¬ iv.precedes new = true) (notAfter : ¬ new.precedes iv = true) :
    symbol ∈ new.hull iv ↔ symbol ∈ new ∨ symbol ∈ iv := by
  rw [mem_iff_spans, mem_iff_spans, mem_iff_spans]
  exact spans_hull_iff valid notBefore notAfter _

theorem covers_insertInto (valid : new.lo.toInt ≤ new.hi.toInt)
    (nonempty : ∀ iv ∈ intervals, iv.lo.toInt ≤ iv.hi.toInt) :
    Covers (insertInto new intervals) symbol ↔ symbol ∈ new ∨ Covers intervals symbol := by
  fun_induction insertInto new intervals with
  | case1 new => exact covers_cons
  | case2 new iv rest before ih =>
    obtain ⟨-, nonempty⟩ := List.forall_mem_cons.mp nonempty
    rw [covers_cons, covers_cons, ih valid nonempty]
    exact or_left_comm
  | case3 new iv rest notBefore after => exact covers_cons
  | case4 new iv rest notBefore notAfter ih =>
    obtain ⟨validToo, nonempty⟩ := List.forall_mem_cons.mp nonempty
    rw [ih (hull_nonempty valid) nonempty, covers_cons,
      mem_hull_iff ⟨valid, validToo⟩ notBefore notAfter]
    exact or_assoc

/-- What lies below the new interval and all others lies below all that come out. -/
theorem lt_lo_of_mem_insertInto {bound : Int} (listed : iv ∈ insertInto new intervals)
    (below : bound < new.lo.toInt) (belowAll : ∀ y ∈ intervals, bound < y.lo.toInt) :
    bound < iv.lo.toInt := by
  fun_induction insertInto new intervals with
  | case1 new =>
    rw [List.mem_singleton.mp listed]
    exact below
  | case2 new first rest before ih =>
    obtain ⟨belowFirst, belowRest⟩ := List.forall_mem_cons.mp belowAll
    rcases List.mem_cons.mp listed with rfl | later
    · exact belowFirst
    · exact ih later below belowRest
  | case3 new first rest notBefore after =>
    rcases List.mem_cons.mp listed with rfl | later
    · exact below
    · exact belowAll iv later
  | case4 new first rest notBefore notAfter ih =>
    obtain ⟨belowFirst, belowRest⟩ := List.forall_mem_cons.mp belowAll
    refine ih listed ?_ belowRest
    rw [toInt_lo_hull]
    omega

theorem Canonical.insertInto (canonical : Canonical intervals)
    (valid : new.lo.toInt ≤ new.hi.toInt) : Canonical (insertInto new intervals) := by
  fun_induction Interval.insertInto new intervals with
  | case1 new => exact canonical_cons.mpr ⟨valid, by simp, canonical⟩
  | case2 new iv rest before ih =>
    obtain ⟨validToo, apart, canonicalRest⟩ := canonical_cons.mp canonical
    refine canonical_cons.mpr ⟨validToo, ?_, ih canonicalRest valid⟩
    exact fun y listed => lt_lo_of_mem_insertInto listed (precedes_iff.mp before) apart
  | case3 new iv rest notBefore after =>
    refine canonical_cons.mpr ⟨valid, fun y listed => ?_, canonical⟩
    have here := precedes_iff.mp after
    have start := canonical.lo_le_of_mem listed
    omega
  | case4 new iv rest notBefore notAfter ih =>
    obtain ⟨-, -, canonicalRest⟩ := canonical_cons.mp canonical
    exact ih canonicalRest (hull_nonempty valid)

end Interval

/-! ## Insertion in one pass -/

namespace Insertion

variable {merged : Interval} {intervals : List Interval}

/-- Once the rest lies after the merged interval, the pass only collects it. -/
theorem foldl_meet_of_after (before after : Array Interval)
    (valid : merged.lo.toInt ≤ merged.hi.toInt)
    (behind : ∀ iv ∈ intervals, iv.lo.toInt ≤ iv.hi.toInt ∧ merged.precedes iv = true) :
    intervals.foldl meet ⟨before, merged, after⟩ =
      ⟨before, merged, after ++ intervals.toArray⟩ := by
  induction intervals generalizing after with
  | nil => simp
  | cons iv rest ih =>
    obtain ⟨⟨validToo, precedes⟩, behindRest⟩ := List.forall_mem_cons.mp behind
    have notBefore : ¬ iv.precedes merged = true := by
      rw [Interval.precedes_iff] at precedes ⊢
      omega
    have met : meet ⟨before, merged, after⟩ iv = ⟨before, merged, after.push iv⟩ := by
      rw [meet, if_neg notBefore, if_pos precedes]
    rw [List.foldl_cons, met, ih (after.push iv) behindRest]
    simp

/-- On a canonical list the pass does what the recursion does. -/
theorem intervals_foldl_meet (before : Array Interval) (canonical : Interval.Canonical intervals)
    (valid : merged.lo.toInt ≤ merged.hi.toInt) :
    (intervals.foldl meet ⟨before, merged, #[]⟩).intervals.toList =
      before.toList ++ Interval.insertInto merged intervals := by
  induction intervals generalizing before merged with
  | nil => simp [Insertion.intervals, Interval.insertInto]
  | cons iv rest ih =>
    obtain ⟨-, -, canonicalRest⟩ := Interval.canonical_cons.mp canonical
    unfold Interval.insertInto
    by_cases precedes : iv.precedes merged = true
    · have met : meet ⟨before, merged, #[]⟩ iv = ⟨before.push iv, merged, #[]⟩ := by
        rw [meet, if_pos precedes]
      rw [List.foldl_cons, met, ih (before.push iv) canonicalRest valid, if_pos precedes]
      simp
    · by_cases follows : merged.precedes iv = true
      · have behind : ∀ y ∈ iv :: rest, y.lo.toInt ≤ y.hi.toInt ∧ merged.precedes y = true := by
          refine fun y listed => ⟨canonical.nonempty y listed, ?_⟩
          have start := canonical.lo_le_of_mem listed
          rw [Interval.precedes_iff] at follows ⊢
          omega
        rw [foldl_meet_of_after before #[] valid behind, if_neg precedes, if_pos follows]
        simp [Insertion.intervals]
      · have met : meet ⟨before, merged, #[]⟩ iv = ⟨before, merged.hull iv, #[]⟩ := by
          rw [meet, if_neg precedes, if_neg follows]
        rw [List.foldl_cons, met, ih before canonicalRest (Interval.hull_nonempty valid),
          if_neg precedes, if_neg follows]

end Insertion

end Recognizer
