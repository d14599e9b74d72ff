/-!
# JSON values

A JSON text as data. Integers of any size are kept exactly; a number that is written with a
fraction is a `decimal`, also when its value is whole. An object keeps its fields in order.
-/

namespace Recognizer.Json

/-- A JSON value. -/
inductive Value
  | null
  | bool (value : Bool)
  | int (value : Int)
  /-- The number `mantissa / 10 ^ places`, written with a fraction. -/
  | decimal (mantissa : Int) (places : Nat)
  | str (text : String)
  | arr (items : List Value)
  | obj (fields : List (String × Value))
  deriving Repr, Inhabited

end Recognizer.Json
