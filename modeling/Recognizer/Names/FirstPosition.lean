/-!
# First positions

Every key of a list with the position of its first occurrence, in the order of these positions.
-/

namespace Recognizer

/-- A key keeps the position it already has and otherwise takes `position`. -/
def insertFirst (found : List (String × Nat)) (key : String) (position : Nat) :
    List (String × Nat) :=
  if (found.lookup key).isSome then found else found ++ [(key, position)]

/-- The distinct keys of a list, each with the position of its first occurrence. -/
def firstPositions (keys : List String) : List (String × Nat) :=
  keys.zipIdx.foldl (fun found (key, position) => insertFirst found key position) []

end Recognizer
