import Recognizer.Interval
import Recognizer.Json.Field

/-!
# Intervals as JSON

An interval is written as an object with the bounds `a` and `b`. It is read from such an object,
with the fields in any order and other fields ignored, or from an array of exactly two bounds.
-/

namespace Recognizer.Interval

open Json

def toJson (iv : Interval) : Value :=
  .obj [("a", .ofInt32 iv.lo), ("b", .ofInt32 iv.hi)]

/-- The interval with the given bounds, both of which must be there. -/
def ofFields? (lo hi : Option Value) : Option Interval := do
  return ⟨← (← lo).int32?, ← (← hi).int32?⟩

def ofJson? : Value → Option Interval
  | .obj fields => ofFields? (fields.lookup "a") (fields.lookup "b")
  | .arr [lo, hi] => ofFields? (some lo) (some hi)
  | _ => none

end Recognizer.Interval
