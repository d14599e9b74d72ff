import Recognizer.Proofs.SymbolSet.Members
import Recognizer.SymbolSet.Complement

/-!
# Symbol sets by construction

A `Recipe` is any way of making a symbol set with the operations of this library.
`contains_build_iff` says that each of them leads to a set in canonical form, and that the search
in it answers exactly for the symbols that the operations have put in.
-/

namespace Recognizer.SymbolSet

variable {set : SymbolSet} {x : Symbol}

/-! ## Complements -/

theorem bounds_of_mem_gaps {last next : Int} {intervals : List Interval} {gap : Int × Int}
    (listed : gap ∈ gaps last next intervals) : next ≤ gap.1 ∧ gap.1 ≤ gap.2 ∧ gap.2 ≤ last := by
  fun_induction gaps last next intervals with
  | case1 next remaining =>
    rw [List.mem_singleton.mp listed]
    exact ⟨Int.le_refl _, remaining, Int.le_refl _⟩
  | case2 next done => cases listed
  | case3 next iv rest passed ih => exact ih listed
  | case4 next iv rest notPassed beyond remaining =>
    rw [List.mem_singleton.mp listed]
    exact ⟨Int.le_refl _, remaining, Int.le_refl _⟩
  | case5 next iv rest notPassed beyond done => cases listed
  | case6 next iv rest notPassed notBeyond gapBefore ih =>
    rcases List.mem_cons.mp listed with rfl | later
    · dsimp only
      omega
    · have bounds := ih later
      omega
  | case7 next iv rest notPassed notBeyond noGap ih =>
    have bounds := ih listed
    omega

/-- The gaps from `next` on are what no interval covers there. -/
theorem exists_mem_gaps_iff {last next n : Int} {intervals : List Interval}
    (canonical : Interval.Canonical intervals) :
    (∃ gap ∈ gaps last next intervals, gap.1 ≤ n ∧ n ≤ gap.2) ↔
      next ≤ n ∧ n ≤ last ∧ ∀ iv ∈ intervals, ¬ (iv.lo.toInt ≤ n ∧ n ≤ iv.hi.toInt) := by
  fun_induction gaps last next intervals with
  | case1 next remaining => simp
  | case2 next done =>
    simp
    omega
  | case3 next iv rest passed ih =>
    obtain ⟨-, -, canonicalRest⟩ := Interval.canonical_cons.mp canonical
    rw [ih canonicalRest, List.forall_mem_cons]
    refine and_congr_right fun start => and_congr_right fun _ => (and_iff_right ?_).symm
    omega
  | case4 next iv rest notPassed beyond remaining =>
    have uncovered (upTo : n ≤ last) : ∀ y ∈ iv :: rest, ¬ (y.lo.toInt ≤ n ∧ n ≤ y.hi.toInt) := by
      intro y listed
      have further := canonical.lo_le_of_mem listed
      omega
    simp only [List.mem_singleton, exists_eq_left]
    exact and_congr_right fun _ => ⟨fun upTo => ⟨upTo, uncovered upTo⟩, And.left⟩
  | case5 next iv rest notPassed beyond done =>
    refine iff_of_false (by simp) ?_
    omega
  | case6 next iv rest notPassed notBeyond gapBefore ih =>
    obtain ⟨valid, apart, canonicalRest⟩ := Interval.canonical_cons.mp canonical
    simp only [List.mem_cons, exists_eq_or_imp, ih canonicalRest, forall_eq_or_imp]
    constructor
    · intro spanned
      rcases spanned with ⟨start, upTo⟩ | ⟨start, upTo, uncovered⟩
      · -- The gap ends before `iv`, and the others begin after it.
        refine ⟨start, by omega, by omega, fun y listed => ?_⟩
        have further := apart y listed
        omega
      · exact ⟨by omega, upTo, by omega, uncovered⟩
    · intro free
      obtain ⟨start, upTo, uncoveredHere, uncovered⟩ := free
      by_cases behind : iv.hi.toInt + 1 ≤ n
      · exact .inr ⟨behind, upTo, uncovered⟩
      · exact .inl ⟨start, by omega⟩
  | case7 next iv rest notPassed notBeyond noGap ih =>
    obtain ⟨-, -, canonicalRest⟩ := Interval.canonical_cons.mp canonical
    rw [ih canonicalRest, List.forall_mem_cons]
    constructor
    · intro spanned
      obtain ⟨start, upTo, uncovered⟩ := spanned
      exact ⟨by omega, upTo, by omega, uncovered⟩
    · intro free
      obtain ⟨start, upTo, uncoveredHere, uncovered⟩ := free
      exact ⟨by omega, upTo, uncovered⟩

theorem Canonical.complement (set : SymbolSet) (lo hi : Symbol) :
    (set.complement lo hi).Canonical := by
  unfold SymbolSet.complement
  split
  · exact canonical_empty
  · exact canonical_empty.addRanges _

/-- The gaps between two symbols are narrowed to symbols without loss. -/
theorem toInt_ofInt_of_mem_gaps {lo hi : Symbol} {intervals : List Interval} {gap : Int × Int}
    (listed : gap ∈ gaps hi.toInt lo.toInt intervals) :
    (Int32.ofInt gap.1).toInt = gap.1 ∧ (Int32.ofInt gap.2).toInt = gap.2 := by
  have bounds := bounds_of_mem_gaps listed
  have least := lo.le_toInt
  have greatest := hi.toInt_lt
  exact ⟨Int32.toInt_ofInt_of_le (by omega) (by omega),
    Int32.toInt_ofInt_of_le (by omega) (by omega)⟩

theorem covers_narrowed_gaps {lo hi : Symbol} {intervals : List Interval} :
    Interval.Covers ((gaps hi.toInt lo.toInt intervals).map fun (first, last) =>
      ⟨Int32.ofInt first, Int32.ofInt last⟩) x ↔
      ∃ gap ∈ gaps hi.toInt lo.toInt intervals, gap.1 ≤ x.toInt ∧ x.toInt ≤ gap.2 := by
  unfold Interval.Covers
  constructor
  · intro covered
    obtain ⟨iv, listed, inside⟩ := covered
    obtain ⟨gap, found, rfl⟩ := List.mem_map.mp listed
    obtain ⟨first, last⟩ := toInt_ofInt_of_mem_gaps found
    rw [Interval.mem_iff, first, last] at inside
    exact ⟨gap, found, inside⟩
  · intro spanned
    obtain ⟨gap, found, inside⟩ := spanned
    obtain ⟨first, last⟩ := toInt_ofInt_of_mem_gaps found
    refine ⟨_, List.mem_map.mpr ⟨gap, found, rfl⟩, ?_⟩
    rw [Interval.mem_iff, first, last]
    exact inside

theorem mem_complement (canonical : set.Canonical) {lo hi : Symbol} :
    x ∈ set.complement lo hi ↔ (lo ≤ x ∧ x ≤ hi) ∧ x ∉ set := by
  have absent : x ∉ set ↔ ∀ iv ∈ set.intervals.toList,
      ¬ (iv.lo.toInt ≤ x.toInt ∧ x.toInt ≤ iv.hi.toInt) := by
    change ¬ Interval.Covers _ _ ↔ _
    simp only [Interval.Covers, Interval.mem_iff, not_exists, not_and]
  rw [absent, Int32.le_iff_toInt_le, Int32.le_iff_toInt_le, and_assoc]
  unfold complement
  split
  · rename_i less
    have noRange := Int32.lt_iff_toInt_lt.mp less
    refine iff_of_false notMem_empty ?_
    omega
  · rw [← exists_mem_gaps_iff canonical, ← covers_narrowed_gaps]
    exact (mem_addRanges canonical_empty).trans (or_iff_right notMem_empty)

/-! ## Recipes -/

/-- A way of making a symbol set. -/
inductive Recipe
  | empty
  | singleton (symbol : Symbol)
  | ofRange (lo hi : Symbol)
  | ofList (symbols : List Symbol)
  | add (recipe : Recipe) (symbol : Symbol)
  | addRange (recipe : Recipe) (lo hi : Symbol)
  | union (recipe other : Recipe)
  | complement (recipe : Recipe) (lo hi : Symbol)

namespace Recipe

/-- The set that a recipe makes. -/
def build : Recipe → SymbolSet
  | empty => .empty
  | singleton symbol => .singleton symbol
  | ofRange lo hi => .ofRange lo hi
  | ofList symbols => .ofList symbols
  | add recipe symbol => recipe.build.add symbol
  | addRange recipe lo hi => recipe.build.addRange lo hi
  | union recipe other => recipe.build.union other.build
  | complement recipe lo hi => recipe.build.complement lo hi

/-- The symbol is one of those that the operations put in. -/
def Yields (x : Symbol) : Recipe → Prop
  | empty => False
  | singleton symbol => x = symbol
  | ofRange lo hi => lo ≤ x ∧ x ≤ hi
  | ofList symbols => x ∈ symbols
  | add recipe symbol => recipe.Yields x ∨ x = symbol
  | addRange recipe lo hi => recipe.Yields x ∨ lo ≤ x ∧ x ≤ hi
  | union recipe other => recipe.Yields x ∨ other.Yields x
  | complement recipe lo hi => (lo ≤ x ∧ x ≤ hi) ∧ ¬ recipe.Yields x

theorem canonical_build (recipe : Recipe) : recipe.build.Canonical := by
  induction recipe with
  | empty => exact canonical_empty
  | singleton symbol => exact canonical_empty.addRange symbol symbol
  | ofRange lo hi => exact canonical_empty.addRange lo hi
  | ofList symbols => exact (foldl_add canonical_empty symbols).1
  | add recipe symbol ih => exact ih.add symbol
  | addRange recipe lo hi ih => exact ih.addRange lo hi
  | union recipe other ih _ => exact ih.union other.build
  | complement recipe lo hi _ => exact .complement recipe.build lo hi

theorem mem_build (recipe : Recipe) : x ∈ recipe.build ↔ recipe.Yields x := by
  induction recipe with
  | empty => exact iff_of_false notMem_empty id
  | singleton symbol => exact (mem_add canonical_empty).trans (or_iff_right notMem_empty)
  | ofRange lo hi => exact (mem_addRange canonical_empty).trans (or_iff_right notMem_empty)
  | ofList symbols =>
    exact ((foldl_add canonical_empty symbols).2 x).trans (or_iff_right notMem_empty)
  | add recipe symbol ih => exact (mem_add recipe.canonical_build).trans (or_congr_left ih)
  | addRange recipe lo hi ih => exact (mem_addRange recipe.canonical_build).trans (or_congr_left ih)
  | union recipe other ih ihOther =>
    exact (mem_union recipe.canonical_build).trans (or_congr ih ihOther)
  | complement recipe lo hi ih =>
    exact (mem_complement recipe.canonical_build).trans (and_congr_right fun _ => not_congr ih)

/-- However a set is made, its intervals are non-empty, in increasing order and apart from each
other, and the search in them answers exactly for the symbols that were put in. -/
theorem contains_build_iff (recipe : Recipe) :
    (∀ iv ∈ recipe.build.intervals.toList, iv.lo ≤ iv.hi) ∧
    (recipe.build.intervals.toList.Pairwise fun x y => x.hi.toInt + 1 < y.lo.toInt) ∧
    ∀ x, recipe.build.contains x = true ↔ recipe.Yields x := by
  have canonical := recipe.canonical_build
  refine ⟨fun iv listed => ?_, canonical.separated, fun x => ?_⟩
  · exact Int32.le_iff_toInt_le.mpr (canonical.nonempty iv listed)
  · exact (contains_iff canonical).trans recipe.mem_build

end Recipe

end Recognizer.SymbolSet
