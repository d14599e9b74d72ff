import Mathlib.Data.Int.Interval
import Mathlib.Data.Set.Card
import Recognizer.Proofs.SymbolSet.Extensionality
import Recognizer.Proofs.SymbolSet.Merging

/-!
# Counting and bounding members

The size of a set is a sum of lengths, and its least and greatest members are read off the ends of
the list of intervals.  Both are right because the list is canonical: no symbol is counted twice, as
the intervals are apart (`encard_covered`), and no symbol lies before the first interval or behind
the last one.

There are 4294967296 symbols, so that no set is larger, and the lengths can be added up in 64-bit
words.  The set and its complement within some bounds share the symbols between these, so their
numbers add up to the length of the range.
-/

namespace Recognizer

namespace Interval

variable {iv last : Interval} {symbol : Symbol} {intervals init : List Interval}

/-! ## Counting -/

/-- Every integer that an interval spans is that of a symbol. -/
theorem image_toInt (iv : Interval) :
    Int32.toInt '' {x : Symbol | x ∈ iv} = {n | iv.Spans n} := by
  ext n
  constructor
  · rintro ⟨x, inside, rfl⟩
    exact mem_iff.mp inside
  · intro between
    obtain ⟨start, stop⟩ := between
    have least := iv.lo.le_toInt
    have greatest := iv.hi.toInt_lt
    have narrowed : (Int32.ofInt n).toInt = n := Int32.toInt_ofInt_of_le (by omega) (by omega)
    have inside : Int32.ofInt n ∈ iv := by
      rw [mem_iff, narrowed]
      exact ⟨start, stop⟩
    exact ⟨Int32.ofInt n, inside, narrowed⟩

theorem encard_members (iv : Interval) : {x : Symbol | x ∈ iv}.encard = iv.length := by
  have injective : Function.Injective Int32.toInt := fun _ _ => Int32.toInt_inj.mp
  have spanned : {n | iv.Spans n} = ↑(Finset.Icc iv.lo.toInt iv.hi.toInt) :=
    Set.ext fun _ => Finset.mem_Icc.symm
  rw [← injective.encard_image, image_toInt, spanned, Set.encard_coe_eq_coe_finsetCard,
    Int.card_Icc, length]

/-- The first interval and the others cover no symbol together. -/
theorem Canonical.encard_covered (canonical : Canonical intervals) :
    {x | Covers intervals x}.encard = total (intervals.map length) := by
  induction intervals with
  | nil =>
    have none : {x | Covers [] x} = ∅ := Set.eq_empty_of_forall_notMem fun _ => covers_nil
    rw [none, Set.encard_empty, List.map_nil, total_nil, Nat.cast_zero]
  | cons iv rest ih =>
    have parts : {x | Covers (iv :: rest) x} = {x | x ∈ iv} ∪ {x | Covers rest x} :=
      Set.ext fun _ => covers_cons
    have apart : Disjoint {x | x ∈ iv} {x | Covers rest x} := by
      refine Set.disjoint_left.mpr fun x inside => canonical.not_covers_tail ?_
      exact Int.le_trans (mem_iff.mp inside).2 (Int.le_add_one (Int.le_refl _))
    rw [parts, Set.encard_union_eq apart, encard_members, ih (canonical_cons.mp canonical).2.2,
      List.map_cons, total_cons, Nat.cast_add]

/-! ## The ends of a canonical list -/

/-- No symbol is covered behind the end of the last interval. -/
theorem Canonical.le_hi_of_covers (canonical : Canonical (init ++ [last]))
    (covered : Covers (init ++ [last]) symbol) : symbol.toInt ≤ last.hi.toInt := by
  obtain ⟨iv, listed, inside⟩ := covered
  have stop := (mem_iff.mp inside).2
  rcases List.mem_append.mp listed with before | here
  · have apart : iv.hi.toInt + 1 < last.lo.toInt :=
      (List.pairwise_append.mp canonical.separated).2.2 iv before last List.mem_cons_self
    have valid := canonical.nonempty last List.mem_concat_self
    omega
  · rwa [← List.mem_singleton.mp here]

theorem hi_mem (valid : iv.lo.toInt ≤ iv.hi.toInt) : iv.hi ∈ iv :=
  mem_iff.mpr ⟨valid, Int.le_refl _⟩

end Interval

namespace SymbolSet

variable {set : SymbolSet} {x lo hi : Symbol}

theorem encard_members (canonical : set.Canonical) : {x | x ∈ set}.encard = set.size :=
  Interval.Canonical.encard_covered canonical

/-- There are 4294967296 symbols. -/
theorem Canonical.size_le (canonical : set.Canonical) : set.size ≤ 4294967296 := by
  have within : {x | x ∈ set} ⊆ {x | x ∈ Interval.mk Int32.minValue Int32.maxValue} := by
    intro x _
    exact ⟨x.minValue_le, x.le_maxValue⟩
  have fewer := Set.encard_le_encard within
  rw [encard_members canonical, Interval.encard_members] at fewer
  exact Nat.cast_le.mp fewer

/-- The lengths of the first intervals add up to no more than those of all. -/
theorem total_take_le (set : SymbolSet) (n : Nat) :
    total ((set.intervals.toList.take n).map Interval.length) ≤ set.size := by
  unfold size
  rw [← List.take_append_drop n set.intervals.toList, List.map_append, total_append,
    List.take_append_drop]
  exact Nat.le_add_right _ _

/-! ## Least and greatest members -/

theorem Canonical.isEmpty_iff (canonical : set.Canonical) :
    set.isEmpty = true ↔ ∀ x, x ∉ set := by
  rcases set with ⟨⟨_ | ⟨iv, rest⟩⟩⟩
  · exact iff_of_true rfl fun x => notMem_empty
  · refine iff_of_false (by simp [isEmpty]) fun none => none iv.lo ?_
    exact Interval.covers_cons.mpr
      (.inl (Interval.lo_mem (Interval.canonical_cons.mp canonical).1))

theorem min?_eq_none_iff : set.min? = none ↔ set.isEmpty = true := by
  rcases set with ⟨⟨_ | ⟨iv, rest⟩⟩⟩ <;> simp [min?, isEmpty]

theorem max?_eq_none_iff : set.max? = none ↔ set.isEmpty = true := by
  simp [max?, isEmpty]

theorem Canonical.isLeast_of_min? (canonical : set.Canonical) (isMin : set.min? = some x) :
    IsLeast {y | y ∈ set} x := by
  rcases set with ⟨⟨_ | ⟨iv, rest⟩⟩⟩
  · cases isMin
  · cases isMin
    have valid := (Interval.canonical_cons.mp canonical).1
    refine ⟨Interval.covers_cons.mpr (.inl (Interval.lo_mem valid)), fun y member => ?_⟩
    exact Int32.le_iff_toInt_le.mpr (Interval.Canonical.lo_le_of_covers canonical member)

theorem Canonical.isGreatest_of_max? (canonical : set.Canonical) (isMax : set.max? = some x) :
    IsGreatest {y | y ∈ set} x := by
  obtain ⟨last, isLast, rfl⟩ := Option.map_eq_some_iff.mp isMax
  rw [← Array.getLast?_toList] at isLast
  obtain ⟨init, split⟩ := List.getLast?_eq_some_iff.mp isLast
  have canonicalSplit : Interval.Canonical (init ++ [last]) := split ▸ canonical
  have valid := canonicalSplit.nonempty last List.mem_concat_self
  have member (y : Symbol) : y ∈ set ↔ Interval.Covers (init ++ [last]) y := by
    rw [← split]
    rfl
  refine ⟨(member _).mpr ⟨last, List.mem_concat_self, Interval.hi_mem valid⟩, fun y isMember => ?_⟩
  exact Int32.le_iff_toInt_le.mpr (canonicalSplit.le_hi_of_covers ((member y).mp isMember))

/-- A least member is the only one, so it is what the first interval begins with. -/
theorem Canonical.min?_eq_some_iff (canonical : set.Canonical) :
    set.min? = some x ↔ IsLeast {y | y ∈ set} x := by
  refine ⟨canonical.isLeast_of_min?, fun least => ?_⟩
  rcases found : set.min? with - | y
  · exact absurd least.1 (canonical.isEmpty_iff.mp (min?_eq_none_iff.mp found) x)
  · have leastToo := canonical.isLeast_of_min? found
    rw [Int32.le_antisymm (leastToo.2 least.1) (least.2 leastToo.1)]

theorem Canonical.max?_eq_some_iff (canonical : set.Canonical) :
    set.max? = some x ↔ IsGreatest {y | y ∈ set} x := by
  refine ⟨canonical.isGreatest_of_max?, fun greatest => ?_⟩
  rcases found : set.max? with - | y
  · exact absurd greatest.1 (canonical.isEmpty_iff.mp (max?_eq_none_iff.mp found) x)
  · have greatestToo := canonical.isGreatest_of_max? found
    rw [Int32.le_antisymm (greatest.2 greatestToo.1) (greatestToo.2 greatest.1)]

/-! ## Complements -/

/-- Within the bounds a symbol belongs to the set or to its complement. -/
theorem size_complement_add (canonical : set.Canonical) (lo hi : Symbol) :
    ((set.complement lo hi).size : ℕ∞) + {x | x ∈ set ∧ lo ≤ x ∧ x ≤ hi}.encard =
      Interval.length ⟨lo, hi⟩ := by
  have apart : Disjoint {x | x ∈ set.complement lo hi} {x | x ∈ set ∧ lo ≤ x ∧ x ≤ hi} := by
    refine Set.disjoint_left.mpr fun x left member => ?_
    exact ((mem_complement canonical).mp left).2 member.1
  have parts : {x | x ∈ Interval.mk lo hi} =
      {x | x ∈ set.complement lo hi} ∪ {x | x ∈ set ∧ lo ≤ x ∧ x ≤ hi} := by
    ext x
    change lo ≤ x ∧ x ≤ hi ↔ x ∈ set.complement lo hi ∨ x ∈ set ∧ lo ≤ x ∧ x ≤ hi
    rw [mem_complement canonical]
    by_cases member : x ∈ set <;> simp [member]
  rw [← encard_members (.complement set lo hi), ← Set.encard_union_eq apart, ← parts,
    Interval.encard_members]

namespace Recipe

/-- The size of a set, however that is made, is the number of the symbols that the search finds in
it, and neither the size nor any sum on the way to it leaves the 64-bit words. The set is empty if
the search finds nothing; otherwise its least and greatest members are the least and the greatest
of the symbols that are found. Its complement within bounds and its members there are as many
as there are symbols between the bounds. -/
theorem measures_of_build (recipe : Recipe) :
    {x | recipe.build.contains x = true}.encard = recipe.build.size ∧
    (∀ n, total ((recipe.build.intervals.toList.take n).map Interval.length) <
      18446744073709551616) ∧
    (recipe.build.isEmpty = true ↔ ∀ x, recipe.build.contains x = false) ∧
    (∀ x, recipe.build.min? = some x ↔ IsLeast {y | recipe.build.contains y = true} x) ∧
    (recipe.build.min? = none ↔ recipe.build.isEmpty = true) ∧
    (∀ x, recipe.build.max? = some x ↔ IsGreatest {y | recipe.build.contains y = true} x) ∧
    (recipe.build.max? = none ↔ recipe.build.isEmpty = true) ∧
    ∀ lo hi, lo ≤ hi →
      ((recipe.build.complement lo hi).size : ℕ∞) +
          {x | recipe.build.contains x = true ∧ lo ≤ x ∧ x ≤ hi}.encard =
        ((hi.toInt - lo.toInt + 1).toNat : ℕ∞) := by
  have canonical := recipe.canonical_build
  simp only [← Bool.not_eq_true, contains_iff canonical]
  refine ⟨encard_members canonical, fun n => ?_, ?_, fun x => canonical.min?_eq_some_iff,
    min?_eq_none_iff, fun x => canonical.max?_eq_some_iff, max?_eq_none_iff, fun lo hi _ => ?_⟩
  · have bound := Nat.le_trans (recipe.build.total_take_le n) canonical.size_le
    omega
  · exact canonical.isEmpty_iff
  · have arranged : hi.toInt + 1 - lo.toInt = hi.toInt - lo.toInt + 1 := by omega
    rw [size_complement_add canonical, Interval.length, arranged]

/-- The set of all symbols, and the part of it from the end of the input to 10. -/
theorem measures_of_wholeRange :
    let set := (ofRange Int32.minValue Int32.maxValue).build
    {x | set.contains x = true}.encard = 4294967296 ∧
      endOfInput ≤ 10 ∧
      ((set.complement endOfInput 10).size : ℕ∞) +
        {x | set.contains x = true ∧ endOfInput ≤ x ∧ x ≤ 10}.encard = 12 := by
  intro set
  have ordered : endOfInput ≤ 10 := by decide
  have size : set.size = 4294967296 := by decide
  obtain ⟨count, -, -, -, -, -, -, parts⟩ :=
    measures_of_build (ofRange Int32.minValue Int32.maxValue)
  refine ⟨?_, ordered, parts endOfInput 10 ordered⟩
  rw [count, size]
  rfl

end Recipe

end SymbolSet

end Recognizer
