/-!
# Bisection

Search by halving. The array is ordered with respect to `side`: first the elements that lie before
the target (`.lt`), then those that are it (`.eq`), then those after it (`.gt`).
-/

namespace Recognizer

/-- A position in `lo, …, hi - 1` whose element is the target. -/
def bisect {α : Type} (side : α → Ordering) (xs : Array α) (lo hi : Nat) (fits : hi ≤ xs.size) :
    Option Nat :=
  if remaining : lo < hi then
    have inside : lo + (hi - lo) / 2 < xs.size := by omega
    match side xs[lo + (hi - lo) / 2] with
    | .eq => some (lo + (hi - lo) / 2)
    | .lt => bisect side xs (lo + (hi - lo) / 2 + 1) hi fits
    | .gt => bisect side xs lo (lo + (hi - lo) / 2) (by omega)
  else none
termination_by hi - lo

end Recognizer
