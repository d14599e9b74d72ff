import Recognizer.Proofs.SymbolSet.Extensionality

/-!
# Complements in exact arithmetic

A complement is computed from gaps in unbounded integers, and stored in 32-bit symbols.  Between the
intervals of a canonical set the gaps are a canonical list themselves, with symbols for bounds.  So
none of them is merged with another one or changed when it is stored: the intervals of a complement
are the gaps (`bounds_complement`).

By its members, a complement of a complement within the same bounds is the part of the set that lies
within them.
-/

namespace Recognizer

/-- Both ends of an interval as integers. -/
def Interval.bounds (iv : Interval) : Int × Int :=
  (iv.lo.toInt, iv.hi.toInt)

namespace SymbolSet

variable {set : SymbolSet} {x lo hi : Symbol} {intervals ranges : List Interval}

/-! ## Gaps as intervals -/

/-- An interval, which is not empty, lies between two gaps. -/
theorem pairwise_gaps (last next : Int) (canonical : Interval.Canonical intervals) :
    (gaps last next intervals).Pairwise fun x y => x.2 + 1 < y.1 := by
  fun_induction gaps last next intervals with
  | case1 next remaining => exact List.pairwise_singleton _ _
  | case2 next done => exact .nil
  | case3 next iv rest passed ih => exact ih (Interval.canonical_cons.mp canonical).2.2
  | case4 next iv rest notPassed beyond remaining => exact List.pairwise_singleton _ _
  | case5 next iv rest notPassed beyond done => exact .nil
  | case6 next iv rest notPassed notBeyond gapBefore ih =>
    obtain ⟨valid, -, canonicalRest⟩ := Interval.canonical_cons.mp canonical
    refine List.pairwise_cons.mpr ⟨fun gap listed => ?_, ih canonicalRest⟩
    have behind := (bounds_of_mem_gaps listed).1
    dsimp only
    omega
  | case7 next iv rest notPassed notBeyond noGap ih =>
    exact ih (Interval.canonical_cons.mp canonical).2.2

/-- The gaps between two symbols as intervals. -/
def gapIntervals (lo hi : Symbol) (intervals : List Interval) : List Interval :=
  (gaps hi.toInt lo.toInt intervals).map fun (first, last) =>
    ⟨Int32.ofInt first, Int32.ofInt last⟩

theorem bounds_gapIntervals (lo hi : Symbol) (intervals : List Interval) :
    (gapIntervals lo hi intervals).map Interval.bounds = gaps hi.toInt lo.toInt intervals := by
  unfold gapIntervals
  rw [List.map_map]
  refine (List.map_congr_left fun gap listed => ?_).trans (List.map_id _)
  obtain ⟨first, last⟩ := toInt_ofInt_of_mem_gaps listed
  exact Prod.ext first last

theorem canonical_gapIntervals (lo hi : Symbol) (canonical : Interval.Canonical intervals) :
    Interval.Canonical (gapIntervals lo hi intervals) := by
  have gapOf {iv : Interval} (listed : iv ∈ gapIntervals lo hi intervals) :
      iv.bounds ∈ gaps hi.toInt lo.toInt intervals := by
    rw [← bounds_gapIntervals]
    exact List.mem_map_of_mem listed
  refine ⟨fun iv listed => (bounds_of_mem_gaps (gapOf listed)).2.1, ?_⟩
  have apart := pairwise_gaps hi.toInt lo.toInt canonical
  rw [← bounds_gapIntervals] at apart
  exact List.pairwise_map.mp apart

/-- A canonical list of ranges is stored as it is. -/
theorem ofRanges_of_canonical (canonical : Interval.Canonical ranges) :
    ofRanges ranges = ⟨ranges.toArray⟩ := by
  refine (canonical_empty.addRanges ranges).ext ?_ fun x => ?_
  · exact canonical
  · exact (mem_addRanges canonical_empty).trans (or_iff_right notMem_empty)

/-- If the bounds are in the wrong order, there is no gap. -/
theorem gaps_of_lt (less : hi < lo) : gaps hi.toInt lo.toInt intervals = [] := by
  refine List.eq_nil_iff_forall_not_mem.mpr fun gap listed => ?_
  have bounds := bounds_of_mem_gaps listed
  have wrong := Int32.lt_iff_toInt_lt.mp less
  omega

/-- The intervals of a complement are the gaps. -/
theorem bounds_complement (canonical : set.Canonical) (lo hi : Symbol) :
    (set.complement lo hi).intervals.toList.map Interval.bounds =
      gaps hi.toInt lo.toInt set.intervals.toList := by
  unfold complement
  split
  · rename_i less
    rw [gaps_of_lt less]
    rfl
  · have stored := ofRanges_of_canonical (canonical_gapIntervals lo hi canonical)
    unfold gapIntervals at stored
    rw [stored]
    exact bounds_gapIntervals lo hi _

/-! ## Complements of complements -/

theorem mem_complement_complement (canonical : set.Canonical) :
    x ∈ (set.complement lo hi).complement lo hi ↔ x ∈ set ∧ lo ≤ x ∧ x ≤ hi := by
  rw [mem_complement (.complement set lo hi), mem_complement canonical]
  by_cases within : lo ≤ x ∧ x ≤ hi <;> simp [within]

namespace Recipe

/-- The complement of a set, however that is made, has the symbols within the bounds that the set
lacks, for all bounds. Its complement within the same bounds is the set with the same symbols as the
part of the given set that lies within them. The gaps from which a complement is made begin and end
with symbols, so each of them is narrowed without loss, and the intervals of the complement are
these gaps. -/
theorem complement_build (recipe : Recipe) (lo hi : Symbol) :
    (∀ x, (recipe.build.complement lo hi).contains x = true ↔
      (lo ≤ x ∧ x ≤ hi) ∧ recipe.build.contains x = false) ∧
    (∀ x, ((recipe.build.complement lo hi).complement lo hi).contains x = true ↔
      recipe.build.contains x = true ∧ lo ≤ x ∧ x ≤ hi) ∧
    (∀ other : Recipe, (∀ x, other.Yields x ↔ recipe.Yields x ∧ lo ≤ x ∧ x ≤ hi) →
      (recipe.build.complement lo hi).complement lo hi = other.build) ∧
    (∀ gap ∈ gaps hi.toInt lo.toInt recipe.build.intervals.toList,
      lo.toInt ≤ gap.1 ∧ gap.1 ≤ gap.2 ∧ gap.2 ≤ hi.toInt ∧
        (Int32.ofInt gap.1).toInt = gap.1 ∧ (Int32.ofInt gap.2).toInt = gap.2) ∧
    (recipe.build.complement lo hi).intervals.toList.map Interval.bounds =
      gaps hi.toInt lo.toInt recipe.build.intervals.toList := by
  have canonical := recipe.canonical_build
  have canonicalOnce : (recipe.build.complement lo hi).Canonical := .complement _ lo hi
  have canonicalTwice : ((recipe.build.complement lo hi).complement lo hi).Canonical :=
    .complement _ lo hi
  refine ⟨fun x => ?_, fun x => ?_, fun other same => ?_, fun gap listed => ?_,
    bounds_complement canonical lo hi⟩
  · rw [contains_iff canonicalOnce, mem_complement canonical, ← contains_iff canonical,
      Bool.not_eq_true]
  · rw [contains_iff canonicalTwice, contains_iff canonical]
    exact mem_complement_complement canonical
  · refine canonicalTwice.ext other.canonical_build fun x => ?_
    rw [mem_complement_complement canonical, other.mem_build, same, recipe.mem_build]
  · obtain ⟨start, ordered, stop⟩ := bounds_of_mem_gaps listed
    exact ⟨start, ordered, stop, toInt_ofInt_of_mem_gaps listed⟩

/-- A complement over the whole range, which has a gap at each end of it. -/
example : ((SymbolSet.ofRange 0 9).complement Int32.minValue Int32.maxValue).intervals =
    #[⟨Int32.minValue, -1⟩, ⟨10, Int32.maxValue⟩] := by decide

end Recipe

end SymbolSet

end Recognizer
