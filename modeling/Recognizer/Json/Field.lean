import Recognizer.Json.Value

/-!
# Reading fields of JSON values

Readers for the scalar fields of a record: each accepts exactly the values of its type and refuses
everything else. A missing field is a caller's matter, a `null` is a value like any other.
-/

namespace Recognizer.Json.Value

def int32? : Value → Option Int32
  | .int n =>
    if Int32.minValue.toInt ≤ n ∧ n ≤ Int32.maxValue.toInt then some (Int32.ofInt n) else none
  | _ => none

def uint32? : Value → Option UInt32
  | .int n => if 0 ≤ n ∧ n ≤ 0xFFFFFFFF then some (UInt32.ofNat n.toNat) else none
  | _ => none

def bool? : Value → Option Bool
  | .bool b => some b
  | _ => none

def str? : Value → Option String
  | .str text => some text
  | _ => none

def ofInt32 (n : Int32) : Value :=
  .int n.toInt

def ofUInt32 (n : UInt32) : Value :=
  .int n.toNat

end Recognizer.Json.Value
