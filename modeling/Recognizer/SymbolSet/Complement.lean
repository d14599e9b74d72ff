import Recognizer.SymbolSet.Basic

/-!
# Complements within bounds

The symbols between two bounds that a set leaves out. `gaps` reads them off the intervals from left
to right, in unbounded integers. Every gap it finds starts and ends within the 32-bit range, so
`Int32.ofInt` narrows it without loss.
-/

namespace Recognizer.SymbolSet

/-- The maximal ranges of symbols in `next, …, last` that no interval covers. -/
def gaps (last : Int) : Int → List Interval → List (Int × Int)
  | next, [] => if next ≤ last then [(next, last)] else []
  | next, iv :: rest =>
    if iv.hi.toInt < next then gaps last next rest
    else if last < iv.lo.toInt then if next ≤ last then [(next, last)] else []
    else if next < iv.lo.toInt then
      (next, iv.lo.toInt - 1) :: gaps last (iv.hi.toInt + 1) rest
    else gaps last (iv.hi.toInt + 1) rest

/-- The symbols from `lo` to `hi` that are no members. -/
def complement (set : SymbolSet) (lo hi : Symbol) : SymbolSet :=
  if hi < lo then empty
  else
    ofRanges <| (gaps hi.toInt lo.toInt set.intervals.toList).map fun (first, last) =>
      ⟨Int32.ofInt first, Int32.ofInt last⟩

end Recognizer.SymbolSet
