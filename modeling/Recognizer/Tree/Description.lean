import Recognizer.Text.Sequence
import Recognizer.Tree.Ancestry
import Recognizer.Tree.Label

/-!
# Where a context stands

The rule names from a context outwards, and a line that shows them together with the span.
-/

namespace Recognizer.Tree

/-- One end of a span, which may be missing. -/
def endText (token : Option Token) : String :=
  (token.map fun token => Text.int32 token.index).getD "none"

namespace Arena

/-- The rule names of the contexts from a node upwards, innermost first. -/
def invocationStack? (arena : Arena) (names : RuleNames) (id : NodeId) : Option (List String) :=
  (arena.enclosing? id).map fun ids => ids.map (arena.ruleName names)

/-- The rule names from the outermost context to a node, and the ends of the node's span. -/
def description? (arena : Arena) (names : RuleNames) (id : NodeId) : Option String :=
  (arena.invocationStack? names id).map fun stack =>
    "RuleContext" ++ Text.bracketed stack.reverse ++ "\x7bstart=" ++ endText (arena.start? id) ++
      ", stop=" ++ endText (arena.stop? id) ++ "\x7d"

end Arena

end Recognizer.Tree
