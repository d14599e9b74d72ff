import Recognizer.Index
import Recognizer.Interval
import Recognizer.SymbolSet.Bisection
import Recognizer.Total

/-!
# Symbol sets

A `SymbolSet` holds its members as closed intervals in increasing order, with at least one symbol
missing between neighbours. So membership is a search by halving, and two sets with the same
members are equal. Insertion restores this form in one pass: it merges the new range with every
interval that it overlaps or touches, and keeps the others on their sides of it.
-/

namespace Recognizer

/-- A set of symbols, stored as intervals in increasing order with gaps between them. -/
structure SymbolSet where
  intervals : Array Interval
  deriving DecidableEq, Repr

namespace Interval

/-- At least one symbol lies between the end of `x` and the start of `y`. -/
def precedes (x y : Interval) : Bool :=
  decide (x.hi.toInt + 1 < y.lo.toInt)

/-- Where the interval lies as seen from `x`. -/
def side (x : Symbol) (iv : Interval) : Ordering :=
  if iv.hi < x then .lt else if x < iv.lo then .gt else .eq

end Interval

/-- The state of an insertion: a new interval, as far as it has grown, and the intervals that were
found to lie before and after it. -/
structure Insertion where
  before : Array Interval
  merged : Interval
  after : Array Interval

namespace Insertion

/-- Put an interval to its side of the merged one, or make it a part of that. -/
def meet (pass : Insertion) (iv : Interval) : Insertion :=
  if iv.precedes pass.merged then { pass with before := pass.before.push iv }
  else if pass.merged.precedes iv then { pass with after := pass.after.push iv }
  else { pass with merged := pass.merged.hull iv }

/-- All intervals of an insertion. -/
def intervals (pass : Insertion) : Array Interval :=
  pass.before.push pass.merged ++ pass.after

end Insertion

namespace SymbolSet

/-- The set without symbols. -/
def empty : SymbolSet := ⟨#[]⟩

instance : EmptyCollection SymbolSet := ⟨empty⟩

instance : Inhabited SymbolSet := ⟨empty⟩

/-- The set with all symbols from `lo` to `hi` added; none if `hi < lo`. -/
def addRange (set : SymbolSet) (lo hi : Symbol) : SymbolSet :=
  if hi < lo then set
  else ⟨(set.intervals.foldl Insertion.meet ⟨#[], ⟨lo, hi⟩, #[]⟩).intervals⟩

def add (set : SymbolSet) (x : Symbol) : SymbolSet :=
  set.addRange x x

/-- The set with the symbols of several ranges added in order. -/
def addRanges (set : SymbolSet) (ranges : List Interval) : SymbolSet :=
  ranges.foldl (fun set iv => set.addRange iv.lo iv.hi) set

/-- The symbols of both sets. -/
def union (set other : SymbolSet) : SymbolSet :=
  set.addRanges other.intervals.toList

/-- The set of the symbols from `lo` to `hi`; empty if `hi < lo`. -/
def ofRange (lo hi : Symbol) : SymbolSet :=
  empty.addRange lo hi

/-- The set of one symbol. -/
def singleton (x : Symbol) : SymbolSet :=
  ofRange x x

/-- The set of the symbols of a list. -/
def ofList (symbols : List Symbol) : SymbolSet :=
  symbols.foldl add empty

/-- The set of the symbols of several ranges. -/
def ofRanges (ranges : List Interval) : SymbolSet :=
  empty.addRanges ranges

def contains (set : SymbolSet) (x : Symbol) : Bool :=
  (bisect (Interval.side x) set.intervals 0 set.intervals.size (Nat.le_refl _)).isSome

def isEmpty (set : SymbolSet) : Bool :=
  set.intervals.isEmpty

def size (set : SymbolSet) : Nat :=
  total (set.intervals.toList.map Interval.length)

def min? (set : SymbolSet) : Option Symbol :=
  set.intervals[0]?.map Interval.lo

def max? (set : SymbolSet) : Option Symbol :=
  set.intervals.back?.map Interval.hi

end SymbolSet

end Recognizer
