/-!
# Decimal text of machine integers

Every number that the library prints is written here: decimal digits without leading zeros, and a
minus sign in front of a negative value.
-/

namespace Recognizer.Text

/-- The decimal text of a signed 32-bit integer. -/
def int32 (value : Int32) : String :=
  value.toInt.repr

/-- The decimal text of an unsigned 32-bit integer. -/
def uint32 (value : UInt32) : String :=
  value.toNat.repr

end Recognizer.Text
