import Recognizer.Json.Value

/-!
# Compact JSON text

`Value.compact` writes a value without blanks, the fields of an object in their order. Inside a
string the quote, the backslash and the characters below U+0020 are escaped, the five that have a
short form by it, and all others are written as they are.
-/

namespace Recognizer.Json

/-- The written form of one character of a string. -/
def escapeChar (c : Char) : List Char :=
  match c with
  | '"' => ['\\', '"']
  | '\\' => ['\\', '\\']
  | '\x08' => ['\\', 'b']
  | '\x0c' => ['\\', 'f']
  | '\n' => ['\\', 'n']
  | '\r' => ['\\', 'r']
  | '\t' => ['\\', 't']
  | c =>
    if c.toNat < 0x20 then
      ['\\', 'u', '0', '0', Nat.digitChar (c.toNat / 16), Nat.digitChar (c.toNat % 16)]
    else [c]

/-- A string between quotes. -/
def quoted (text : String) : String :=
  String.ofList ('"' :: (text.toList.flatMap escapeChar ++ ['"']))

mutual

/-- The text of a value without blanks. -/
def Value.compact : Value → String
  | .null => "null"
  | .bool true => "true"
  | .bool false => "false"
  | .int value => value.repr
  | .decimal mantissa places => mantissa.repr ++ "e-" ++ places.repr
  | .str text => quoted text
  | .arr items => "[" ++ ",".intercalate (itemTexts items) ++ "]"
  | .obj fields => "\x7b" ++ ",".intercalate (fieldTexts fields) ++ "\x7d"

/-- The text of every item of an array. -/
def itemTexts : List Value → List String
  | [] => []
  | item :: rest => item.compact :: itemTexts rest

/-- The text of every field of an object: the key, a colon and the value. -/
def fieldTexts : List (String × Value) → List String
  | [] => []
  | (key, value) :: rest => (quoted key ++ ":" ++ value.compact) :: fieldTexts rest

end

end Recognizer.Json
