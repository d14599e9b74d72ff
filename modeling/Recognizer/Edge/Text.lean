import Recognizer.Edge.Basic
import Recognizer.SymbolSet.Text

/-!
# Text of edges

The move of an edge in the notation of automaton dumps; the target is not part of it.
-/

namespace Recognizer

/-- The move in the notation of automaton dumps. -/
def Move.text : Move → String
  | epsilon _ => "epsilon"
  | range lo hi => rangeName lo hi
  | call rule _ _ => "rule_" ++ Text.uint32 rule
  | predicate p => "pred_" ++ Text.uint32 p.rule ++ ":" ++ Text.uint32 p.index
  | atom label => symbolName label
  | action rule index _ =>
    "action_" ++ Text.uint32 rule ++ ":" ++ (index.map Text.uint32).getD "-1"
  | set label => label.text
  | notSet excluded => "~" ++ excluded.text
  | wildcard => "."
  | precedence check => Text.int32 check.level ++ " >= _p"

def Edge.text (edge : Edge) : String :=
  edge.move.text

end Recognizer
