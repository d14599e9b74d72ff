import Recognizer.Names.RuleNames
import Recognizer.Tree.Unfolding

/-!
# Labels and bracketed trees

A node is labelled by its rule name, with the alternative after a colon if it has one, or by the
text of its token. The bracketed form of a subtree writes a context with children as its label and
their forms in parentheses, and every other node as its bare label, whitespace made visible.
-/

namespace Recognizer.Tree

/-- A tree of labels. -/
inductive LabelTree
  | node (label : String) (children : List LabelTree)
  deriving Repr

namespace LabelTree

mutual

/-- The label alone, or the label and the printed children in parentheses. -/
def print : LabelTree → String
  | node label [] => label
  | node label (first :: rest) => "(" ++ label ++ printAll (first :: rest) ++ ")"

/-- The printed trees, a space before each. -/
def printAll : List LabelTree → String
  | [] => ""
  | tree :: rest => " " ++ tree.print ++ printAll rest

end

end LabelTree

/-- The name of a rule that cannot be resolved. -/
def unknownRule : String := "n/a"

namespace Arena

/-- The name of the rule of a context. -/
def ruleName (arena : Arena) (names : RuleNames) (id : NodeId) : String :=
  ((arena.rule? id).bind names).getD unknownRule

/-- The label of a node; a node that does not exist has the empty label. -/
def label (arena : Arena) (names : RuleNames) (id : NodeId) : String :=
  match arena.node? id with
  | some (.context context) =>
    match context.alt with
    | some alt => arena.ruleName names id ++ ":" ++ Text.uint32 alt
    | none => arena.ruleName names id
  | some (.leaf leaf) => leaf.token.displayText
  | none => ""

/-- The label of a node with whitespace made visible. -/
def visibleLabel (arena : Arena) (names : RuleNames) (id : NodeId) : String :=
  Text.escape false (arena.label names id)

/-- The labels of the nodes below a node, with a budget of contexts on every path. -/
def labelsWithin (arena : Arena) (names : RuleNames) : Nat → NodeId → Option LabelTree
  | 0, id =>
    match arena.context? id with
    | none => some (.node (arena.visibleLabel names id) [])
    | some _ => none
  | budget + 1, id =>
    match arena.context? id with
    | none => some (.node (arena.visibleLabel names id) [])
    | some context =>
      (context.children.mapM (arena.labelsWithin names budget)).map
        (.node (arena.visibleLabel names id))

/-- The labels of the nodes below a node, if following the child lists ends. -/
def labels? (arena : Arena) (names : RuleNames) (id : NodeId) : Option LabelTree :=
  arena.labelsWithin names arena.heightLimit id

/-- The bracketed form of a subtree. -/
def bracketed? (arena : Arena) (names : RuleNames) (id : NodeId) : Option String :=
  (arena.labels? names id).map LabelTree.print

end Arena

end Recognizer.Tree
