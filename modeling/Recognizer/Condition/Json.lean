import Recognizer.Condition
import Recognizer.Json.Field

/-!
# Conditions as JSON

A condition is written as the string `"None"`, or as an object whose only key names the kind and
holds its fields. It is read from these forms, from `None` as a key with a null, and with the fields
of a kind as an object in any order, other fields ignored, or as an array by position. All fields
are required.
-/

namespace Recognizer

open Json

namespace Predicate

def toJson (predicate : Predicate) : Value :=
  .obj [("rule_index", .ofUInt32 predicate.rule), ("pred_index", .ofUInt32 predicate.index),
    ("is_ctx_dependent", .bool predicate.inContext)]

/-- The predicate with the given fields, all of which must be there. -/
def ofFields? (rule index inContext : Option Value) : Option Predicate := do
  return ⟨← (← rule).uint32?, ← (← index).uint32?, ← (← inContext).bool?⟩

def ofJson? : Value → Option Predicate
  | .obj fields =>
    ofFields? (fields.lookup "rule_index") (fields.lookup "pred_index")
      (fields.lookup "is_ctx_dependent")
  | .arr [rule, index, inContext] => ofFields? (some rule) (some index) (some inContext)
  | _ => none

end Predicate

namespace PrecedenceCheck

def toJson (check : PrecedenceCheck) : Value :=
  .obj [("precedence", .ofInt32 check.level)]

/-- The check with the given level, which must be there. -/
def ofFields? (level : Option Value) : Option PrecedenceCheck := do
  return ⟨← (← level).int32?⟩

def ofJson? : Value → Option PrecedenceCheck
  | .obj fields => ofFields? (fields.lookup "precedence")
  | .arr [level] => ofFields? (some level)
  | _ => none

end PrecedenceCheck

namespace Condition

def toJson : Condition → Value
  | always => .str "None"
  | predicate p => .obj [("Predicate", p.toJson)]
  | precedence check => .obj [("Precedence", check.toJson)]

def ofJson? : Value → Option Condition
  | .str "None" => some always
  | .obj [("None", .null)] => some always
  | .obj [("Predicate", value)] => (Predicate.ofJson? value).map predicate
  | .obj [("Precedence", value)] => (PrecedenceCheck.ofJson? value).map precedence
  | _ => none

end Condition

end Recognizer
