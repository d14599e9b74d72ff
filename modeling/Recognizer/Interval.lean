import Recognizer.Text.Decimal

/-!
# Closed intervals

An `Interval` covers the integers from `lo` to `hi`, both included, and none if `hi < lo`. Bounds
that have to be stepped over are compared as integers, so the ends of the 32-bit range behave like
all other bounds.
-/

namespace Recognizer

/-- The integers from `lo` to `hi`. -/
structure Interval where
  lo : Int32
  hi : Int32
  deriving DecidableEq, Repr

namespace Interval

/-- The mark for a span that has not been established yet. -/
def unset : Interval := ⟨-1, -2⟩

/-- The interval is another than the mark for an unset span. -/
def isSet (iv : Interval) : Bool :=
  iv != unset

instance : Membership Int32 Interval :=
  ⟨fun iv x => iv.lo ≤ x ∧ x ≤ iv.hi⟩

instance (x : Int32) (iv : Interval) : Decidable (x ∈ iv) :=
  inferInstanceAs (Decidable (iv.lo ≤ x ∧ x ≤ iv.hi))

def contains (iv : Interval) (x : Int32) : Bool :=
  decide (x ∈ iv)

/-- The number of integers covered. -/
def length (iv : Interval) : Nat :=
  (iv.hi.toInt + 1 - iv.lo.toInt).toNat

/-- One interval starts right after the other ends. -/
def adjacent (x y : Interval) : Bool :=
  x.lo.toInt == y.hi.toInt + 1 || x.hi.toInt == y.lo.toInt - 1

/-- One interval starts after the other ends. -/
def disjoint (x y : Interval) : Bool :=
  decide (y.hi < x.lo) || decide (x.hi < y.lo)

/-- The smallest interval that covers both. -/
def hull (x y : Interval) : Interval :=
  ⟨min x.lo y.lo, max x.hi y.hi⟩

def text (iv : Interval) : String :=
  Text.int32 iv.lo ++ ".." ++ Text.int32 iv.hi

end Interval

end Recognizer
