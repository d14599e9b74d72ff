import Recognizer.Proofs.SymbolSet.Recipe

/-!
# Equal members, equal sets

A canonical list of intervals can be read off the symbols that it covers: the first interval begins
with the least of them and ends before the first gap.  So two lists that cover the same symbols are
one list (`Canonical.eq_of_covers_iff`), and equality of symbol sets, which compares intervals, is
equality of their members.  Laws of sets hold of symbol sets for that reason.
-/

namespace Recognizer

namespace Interval

variable {x y iv : Interval} {symbol : Symbol} {intervals others : List Interval}

theorem eq_of_toInt_eq (start : x.lo.toInt = y.lo.toInt) (stop : x.hi.toInt = y.hi.toInt) :
    x = y := by
  rcases x with ⟨lo, hi⟩
  rcases y with ⟨lo', hi'⟩
  cases Int32.toInt_inj.mp start
  cases Int32.toInt_inj.mp stop
  rfl

theorem lo_mem (valid : iv.lo.toInt ≤ iv.hi.toInt) : iv.lo ∈ iv :=
  mem_iff.mpr ⟨Int.le_refl _, valid⟩

/-- No symbol is covered before the first interval begins. -/
theorem Canonical.lo_le_of_covers (canonical : Canonical (iv :: intervals))
    (covered : Covers (iv :: intervals) symbol) : iv.lo.toInt ≤ symbol.toInt := by
  obtain ⟨y, listed, inside⟩ := covered
  exact Int.le_trans (canonical.lo_le_of_mem listed) (mem_iff.mp inside).1

/-- The symbol behind the first interval belongs to the gap, and those before it to no other
interval. -/
theorem Canonical.not_covers_tail (canonical : Canonical (iv :: intervals))
    (near : symbol.toInt ≤ iv.hi.toInt + 1) : ¬ Covers intervals symbol := by
  obtain ⟨-, apart, -⟩ := canonical_cons.mp canonical
  intro covered
  obtain ⟨y, listed, inside⟩ := covered
  have further := apart y listed
  have start := (mem_iff.mp inside).1
  omega

/-- An interval that begins where the first one does, and all of which is covered, ends with it at
the latest. -/
theorem Canonical.hi_le_of_covers (canonical : Canonical (iv :: intervals))
    (start : iv.lo.toInt = y.lo.toInt) (covered : ∀ z ∈ y, Covers (iv :: intervals) z) :
    y.hi.toInt ≤ iv.hi.toInt := by
  obtain ⟨valid, -, -⟩ := canonical_cons.mp canonical
  refine Int.not_lt.mp fun longer => ?_
  -- The symbol right behind `iv` is narrowed without loss, since `y` reaches it.
  have least := iv.hi.le_toInt
  have greatest := y.hi.toInt_lt
  have narrowed : (Int32.ofInt (iv.hi.toInt + 1)).toInt = iv.hi.toInt + 1 :=
    Int32.toInt_ofInt_of_le (by omega) (by omega)
  have inside : Int32.ofInt (iv.hi.toInt + 1) ∈ y := by
    rw [mem_iff, narrowed]
    omega
  rcases covers_cons.mp (covered _ inside) with here | later
  · rw [mem_iff, narrowed] at here
    omega
  · exact canonical.not_covers_tail (Int.le_of_eq narrowed) later

/-- The first intervals of two lists that cover the same symbols are the same. -/
theorem Canonical.head_eq (canonical : Canonical (x :: intervals))
    (canonicalToo : Canonical (y :: others))
    (same : ∀ z, Covers (x :: intervals) z ↔ Covers (y :: others) z) : x = y := by
  have validX := (canonical_cons.mp canonical).1
  have validY := (canonical_cons.mp canonicalToo).1
  have coversX (z : Symbol) (inside : z ∈ x) : Covers (y :: others) z :=
    (same z).mp (covers_cons.mpr (.inl inside))
  have coversY (z : Symbol) (inside : z ∈ y) : Covers (x :: intervals) z :=
    (same z).mpr (covers_cons.mpr (.inl inside))
  have start : x.lo.toInt = y.lo.toInt :=
    Int.le_antisymm (canonical.lo_le_of_covers (coversY _ (lo_mem validY)))
      (canonicalToo.lo_le_of_covers (coversX _ (lo_mem validX)))
  have stop : x.hi.toInt = y.hi.toInt :=
    Int.le_antisymm (canonicalToo.hi_le_of_covers start.symm coversX)
      (canonical.hi_le_of_covers start coversY)
  exact eq_of_toInt_eq start stop

/-- What a canonical list covers behind its first interval. -/
theorem Canonical.covers_tail_iff (canonical : Canonical (iv :: intervals)) :
    Covers intervals symbol ↔ Covers (iv :: intervals) symbol ∧ iv.hi.toInt < symbol.toInt := by
  rw [covers_cons]
  constructor
  · intro later
    refine ⟨.inr later, Int.lt_of_not_ge fun before => ?_⟩
    exact canonical.not_covers_tail (Int.le_trans before (Int.le_add_one (Int.le_refl _))) later
  · intro covered
    obtain ⟨here | later, behind⟩ := covered
    · have upTo := (mem_iff.mp here).2
      omega
    · exact later

theorem Canonical.eq_of_covers_iff (canonical : Canonical intervals)
    (canonicalToo : Canonical others) (same : ∀ z, Covers intervals z ↔ Covers others z) :
    intervals = others := by
  induction intervals generalizing others with
  | nil =>
    cases others with
    | nil => rfl
    | cons y others =>
      have covered : Covers (y :: others) y.lo :=
        covers_cons.mpr (.inl (lo_mem (canonical_cons.mp canonicalToo).1))
      exact absurd ((same _).mpr covered) covers_nil
  | cons x intervals ih =>
    cases others with
    | nil =>
      have covered : Covers (x :: intervals) x.lo :=
        covers_cons.mpr (.inl (lo_mem (canonical_cons.mp canonical).1))
      exact absurd ((same _).mp covered) covers_nil
    | cons y others =>
      have head := canonical.head_eq canonicalToo same
      subst head
      have rest : intervals = others := by
        refine ih (canonical_cons.mp canonical).2.2 (canonical_cons.mp canonicalToo).2.2 ?_
        intro z
        rw [canonical.covers_tail_iff, canonicalToo.covers_tail_iff, same]
      rw [rest]

end Interval

namespace SymbolSet

variable {set other : SymbolSet}

/-- Canonical sets with the same members are equal. -/
theorem Canonical.ext (canonical : set.Canonical) (canonicalToo : other.Canonical)
    (same : ∀ x, x ∈ set ↔ x ∈ other) : set = other := by
  rcases set with ⟨intervals⟩
  rcases other with ⟨others⟩
  exact congrArg mk (Array.toList_inj.mp (Interval.Canonical.eq_of_covers_iff canonical
    canonicalToo same))

theorem Canonical.eq_iff (canonical : set.Canonical) (canonicalToo : other.Canonical) :
    set = other ↔ ∀ x, x ∈ set ↔ x ∈ other := by
  constructor
  · rintro rfl x
    exact Iff.rfl
  · exact canonical.ext canonicalToo

namespace Recipe

/-- Two sets, however they are made, are equal exactly if the search answers alike in them for
every symbol. So ranges that are added to a set matter for the symbols only that they cover and the
set lacks, not for their order, overlaps or repetitions, and unions are commutative, associative
and idempotent. -/
theorem build_eq_iff (first second third : Recipe) :
    (first.build = second.build ↔
      ∀ x, first.build.contains x = second.build.contains x) ∧
    (∀ ranges others : List Interval,
      first.build.addRanges ranges = first.build.addRanges others ↔
        ∀ x, ¬ first.Yields x → (Interval.Covers ranges x ↔ Interval.Covers others x)) ∧
    first.build.union second.build = second.build.union first.build ∧
    (first.build.union second.build).union third.build =
      first.build.union (second.build.union third.build) ∧
    first.build.union first.build = first.build := by
  have canonical := first.canonical_build
  have canonicalToo := second.canonical_build
  refine ⟨?_, fun ranges others => ?_, ?_, ?_, ?_⟩
  · rw [canonical.eq_iff canonicalToo]
    refine forall_congr' fun x => ?_
    rw [Bool.eq_iff_iff, contains_iff canonical, contains_iff canonicalToo]
  · rw [(canonical.addRanges ranges).eq_iff (canonical.addRanges others)]
    refine forall_congr' fun x => ?_
    rw [mem_addRanges canonical, mem_addRanges canonical, first.mem_build]
    by_cases old : first.Yields x <;> simp [old]
  · refine (canonical.union _).ext (canonicalToo.union _) fun x => ?_
    rw [mem_union canonical, mem_union canonicalToo]
    exact or_comm
  · refine ((canonical.union _).union _).ext (canonical.union _) fun x => ?_
    rw [mem_union (canonical.union _), mem_union canonical, mem_union canonical,
      mem_union canonicalToo]
    exact or_assoc
  · refine (canonical.union _).ext canonical fun x => ?_
    rw [mem_union canonical]
    exact or_self_iff

/-- Two ranges that overlap, in either order. -/
example : (SymbolSet.ofRange 5 9).addRange 1 6 = (SymbolSet.ofRange 1 6).addRange 5 9 := by decide

end Recipe

end SymbolSet

end Recognizer
