/-!
# Code points

Hexadecimal text of a symbol, and text from raw code points.
-/

namespace Recognizer.Text

/-- Lower-case hexadecimal digits of the 32 bits of `value`, without leading zeros. -/
def hexadecimal (value : Int32) : String :=
  String.ofList (Nat.toDigits 16 value.toUInt32.toNat)

/-- The character with code point `point`. Surrogates and values above U+10FFFF have none. -/
def charOfPoint? (point : UInt32) : Option Char :=
  if valid : point.isValidChar then some ⟨point, valid⟩ else none

/-- The text of the code points that are characters, in order. -/
def ofCodePoints (points : List UInt32) : String :=
  String.ofList (points.filterMap charOfPoint?)

end Recognizer.Text
