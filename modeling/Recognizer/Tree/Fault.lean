import Recognizer.Tree.Node

/-!
# Faults of tree edits

An edit trusts its caller to name contexts of the arena. A `Fault` says which promise was broken.
-/

namespace Recognizer.Tree

/-- Why an edit was refused. -/
inductive Fault
  /-- The node to add to a context does not exist in the arena of the given size. -/
  | noSuchChild (child : NodeId) (size : Nat)
  /-- The node that should be a context does not exist. -/
  | noSuchContext (id : NodeId)
  /-- The node that should be a context is a leaf. -/
  | notContext (id : NodeId) (kind : LeafKind)
  /-- The child is the context itself or one of its ancestors. -/
  | cycle (context child : NodeId)
  /-- The ancestors of the context run in a circle that does not meet the child. -/
  | endless (context : NodeId)
  deriving DecidableEq, Repr

/-- An id in the wording of a fault. -/
def NodeId.text (id : NodeId) : String :=
  "NodeId(" ++ id.index.repr ++ ")"

/-- The kind of a leaf in the wording of a fault. -/
def LeafKind.text : LeafKind → String
  | terminal => "Terminal"
  | error => "Error"

/-- The wording of a fault. -/
def Fault.message : Fault → String
  | noSuchChild child size =>
    "ParseTree: node " ++ child.text ++ " not found (tree has " ++ size.repr ++ " nodes)"
  | noSuchContext id => "ParseTree: node " ++ id.text ++ " not found"
  | notContext id kind =>
    "ParseTree: node " ++ id.text ++ " is a " ++ kind.text ++ " node, expected a rule context"
  | cycle context child =>
    "ParseTree: adding node " ++ child.text ++ " under " ++ context.text ++
      " would create a cycle"
  | endless context => "ParseTree: the ancestors of node " ++ context.text ++ " never end"

end Recognizer.Tree
