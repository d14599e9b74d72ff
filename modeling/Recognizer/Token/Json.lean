import Recognizer.Token
import Recognizer.Json.Field

/-!
# Tokens as JSON

A token is written as an object with the fields `type`, `index`, `text`, `line` and `column` in this
order, `text` only if there is one. It is read from such an object, with the fields in any order and
other fields ignored, or from an array with the same fields by position. Type and index are
required; a missing or null text is no text, and a missing line or column is zero.
-/

namespace Recognizer.Token

open Json

def toFields (token : Token) : List (String × Value) :=
  [("type", .ofInt32 token.type), ("index", .ofInt32 token.index)] ++
    (token.text.toList.map fun text => ("text", .str text)) ++
    [("line", .ofUInt32 token.line), ("column", .ofUInt32 token.column)]

def toJson (token : Token) : Value :=
  .obj token.toFields

/-- A text that may be missing or null. -/
def textOfField? : Option Value → Option (Option String)
  | none => some none
  | some .null => some none
  | some value => value.str?.map some

/-- A line or column, zero if missing. -/
def positionOfField? : Option Value → Option UInt32
  | none => some 0
  | some value => value.uint32?

def ofFields? (type index text line column : Option Value) : Option Token := do
  return ⟨← (← type).int32?, ← (← index).int32?, ← textOfField? text,
    ← positionOfField? line, ← positionOfField? column⟩

def ofJson? : Value → Option Token
  | .obj fields =>
    ofFields? (fields.lookup "type") (fields.lookup "index") (fields.lookup "text")
      (fields.lookup "line") (fields.lookup "column")
  | .arr items =>
    if items.length ≤ 5 then ofFields? items[0]? items[1]? items[2]? items[3]? items[4]? else none
  | _ => none

end Recognizer.Token
