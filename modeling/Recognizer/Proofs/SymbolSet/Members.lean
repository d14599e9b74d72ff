import Recognizer.Proofs.SymbolSet.Bisection
import Recognizer.Proofs.SymbolSet.Insertion

/-!
# Members of symbol sets

A symbol is a member of a set if one of its intervals covers it.  On a canonical set the search by
halving decides that, and adding a range leaves a canonical set whose members are the old ones and
those of the range.
-/

namespace Recognizer.SymbolSet

/-- The set is stored in its canonical form. -/
def Canonical (set : SymbolSet) : Prop :=
  Interval.Canonical set.intervals.toList

instance : Membership Symbol SymbolSet :=
  ⟨fun set x => Interval.Covers set.intervals.toList x⟩

variable {set other : SymbolSet} {x : Symbol} {iv : Interval}

theorem canonical_empty : empty.Canonical :=
  .nil

theorem notMem_empty : x ∉ empty :=
  Interval.covers_nil

/-! ## Search -/

theorem side_eq_lt_iff : iv.side x = .lt ↔ iv.hi.toInt < x.toInt := by
  rw [← Int32.lt_iff_toInt_lt]
  unfold Interval.side
  split
  · rename_i before
    exact iff_of_true rfl before
  · rename_i notBefore
    refine iff_of_false ?_ notBefore
    split <;> simp

theorem side_eq_eq_iff : iv.side x = .eq ↔ x ∈ iv := by
  rw [Interval.mem_iff]
  unfold Interval.side
  split
  · rename_i before
    have less := Int32.lt_iff_toInt_lt.mp before
    refine iff_of_false (by simp) ?_
    omega
  · rename_i notBefore
    have notLess := mt Int32.lt_iff_toInt_lt.mpr notBefore
    split
    · rename_i after
      have less := Int32.lt_iff_toInt_lt.mp after
      refine iff_of_false (by simp) ?_
      omega
    · rename_i notAfter
      have notGreater := mt Int32.lt_iff_toInt_lt.mpr notAfter
      refine iff_of_true rfl ?_
      omega

theorem lt_lo_of_side_eq_gt (after : iv.side x = .gt) : x.toInt < iv.lo.toInt := by
  unfold Interval.side at after
  split at after
  · cases after
  · split at after
    · rename_i less
      exact Int32.lt_iff_toInt_lt.mp less
    · cases after

theorem side_eq_gt_of_lt_lo (valid : iv.lo.toInt ≤ iv.hi.toInt) (less : x.toInt < iv.lo.toInt) :
    iv.side x = .gt := by
  have notBefore : ¬ iv.hi < x := by
    rw [Int32.lt_iff_toInt_lt]
    omega
  rw [Interval.side, if_neg notBefore, if_pos (Int32.lt_iff_toInt_lt.mpr less)]

theorem Canonical.ordered (canonical : set.Canonical) (x : Symbol) :
    Ordered (Interval.side x) set.intervals := by
  intro i j inside less
  have apart : set.intervals[i].hi.toInt + 1 < set.intervals[j].lo.toInt :=
    List.pairwise_iff_getElem.mp canonical.separated i j _ inside less
  have validI := canonical.nonempty set.intervals[i] (Array.getElem_mem_toList _)
  have validJ := canonical.nonempty set.intervals[j] (Array.getElem_mem_toList inside)
  constructor
  · intro before
    rw [side_eq_lt_iff] at before ⊢
    omega
  · intro after
    have lessI := lt_lo_of_side_eq_gt after
    exact side_eq_gt_of_lt_lo validJ (by omega)

/-- The search answers membership. -/
theorem contains_iff (canonical : set.Canonical) : set.contains x = true ↔ x ∈ set := by
  unfold contains
  rw [isSome_bisect_iff (canonical.ordered x)]
  simp only [side_eq_eq_iff, ← Array.mem_toList_iff]
  rfl

/-! ## Adding ranges -/

theorem intervals_addRange (canonical : set.Canonical) {lo hi : Symbol} (notLess : ¬ hi < lo) :
    (set.addRange lo hi).intervals.toList = Interval.insertInto ⟨lo, hi⟩ set.intervals.toList := by
  rw [addRange, if_neg notLess, ← Array.foldl_toList]
  exact Insertion.intervals_foldl_meet #[] canonical (Interval.toInt_le_of_not_lt notLess)

theorem Canonical.addRange (canonical : set.Canonical) (lo hi : Symbol) :
    (set.addRange lo hi).Canonical := by
  by_cases less : hi < lo
  · rw [SymbolSet.addRange, if_pos less]
    exact canonical
  · unfold Canonical
    rw [intervals_addRange canonical less]
    exact Interval.Canonical.insertInto canonical (Interval.toInt_le_of_not_lt less)

/-- A range without symbols adds none, and any other adds its own. -/
theorem mem_addRange (canonical : set.Canonical) {lo hi : Symbol} :
    x ∈ set.addRange lo hi ↔ x ∈ set ∨ lo ≤ x ∧ x ≤ hi := by
  by_cases less : hi < lo
  · have none : ¬ (lo ≤ x ∧ x ≤ hi) := by
      rw [Int32.lt_iff_toInt_lt] at less
      rw [Int32.le_iff_toInt_le, Int32.le_iff_toInt_le]
      omega
    rw [addRange, if_pos less]
    simp [none]
  · have covers : x ∈ set.addRange lo hi ↔
        Interval.Covers (Interval.insertInto ⟨lo, hi⟩ set.intervals.toList) x := by
      rw [← intervals_addRange canonical less]
      rfl
    have valid := Interval.toInt_le_of_not_lt less
    exact (covers.trans (Interval.covers_insertInto valid canonical.nonempty)).trans or_comm

/-- The new range bridges two old ones that it only touches. -/
example : ((ofRange 1 3).addRange 7 9).addRange 4 6 = ⟨#[⟨1, 9⟩]⟩ := by decide

theorem Canonical.addRanges (canonical : set.Canonical) (ranges : List Interval) :
    (set.addRanges ranges).Canonical := by
  induction ranges generalizing set with
  | nil => exact canonical
  | cons range ranges ih => exact ih (canonical.addRange range.lo range.hi)

theorem mem_addRanges (canonical : set.Canonical) {ranges : List Interval} :
    x ∈ set.addRanges ranges ↔ x ∈ set ∨ Interval.Covers ranges x := by
  induction ranges generalizing set with
  | nil => exact (or_iff_left Interval.covers_nil).symm
  | cons range ranges ih =>
    have rest := ih (canonical.addRange range.lo range.hi)
    rw [mem_addRange canonical, or_assoc] at rest
    rw [Interval.covers_cons]
    exact rest

theorem Canonical.union (canonical : set.Canonical) (other : SymbolSet) :
    (set.union other).Canonical :=
  canonical.addRanges other.intervals.toList

theorem mem_union (canonical : set.Canonical) : x ∈ set.union other ↔ x ∈ set ∨ x ∈ other :=
  mem_addRanges canonical

theorem Canonical.add (canonical : set.Canonical) (y : Symbol) : (set.add y).Canonical :=
  canonical.addRange y y

theorem mem_add (canonical : set.Canonical) {y : Symbol} : x ∈ set.add y ↔ x ∈ set ∨ x = y := by
  have same : y ≤ x ∧ x ≤ y ↔ x = y := by
    rw [Int32.le_iff_toInt_le, Int32.le_iff_toInt_le, ← Int32.toInt_inj]
    omega
  rw [← same]
  exact mem_addRange canonical

theorem foldl_add (canonical : set.Canonical) (symbols : List Symbol) :
    (symbols.foldl SymbolSet.add set).Canonical ∧
      ∀ x, x ∈ symbols.foldl SymbolSet.add set ↔ x ∈ set ∨ x ∈ symbols := by
  induction symbols generalizing set with
  | nil => exact ⟨canonical, fun x => by simp⟩
  | cons symbol symbols ih =>
    obtain ⟨canonicalAfter, members⟩ := ih (canonical.add symbol)
    refine ⟨canonicalAfter, fun x => (members x).trans ?_⟩
    rw [mem_add canonical, List.mem_cons, or_assoc]

end Recognizer.SymbolSet
