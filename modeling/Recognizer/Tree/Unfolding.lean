import Recognizer.Total
import Recognizer.Tree.Arena

/-!
# Following child lists downwards

A traversal that follows child lists ends unless some path of contexts is longer than the number of
nodes, for such a path meets a context twice. So a traversal carries a budget of contexts for the
path below each node, and gives up when it meets a context with none left. `unfolding` bounds the
work that is left at a node, which makes traversals with a stack of pending nodes end.
-/

namespace Recognizer.Tree.Arena

/-- A downward path without repetition has at most this many contexts. -/
def heightLimit (arena : Arena) : Nat :=
  arena.size

/-- The number of pending tasks that a visit of a node unfolds into, at most. -/
def unfolding (arena : Arena) : Nat → NodeId → Nat
  | 0, _ => 1
  | budget + 1, id => total ((arena.children id).map (arena.unfolding budget)) + 2

theorem one_le_unfolding (arena : Arena) (budget : Nat) (id : NodeId) :
    1 ≤ arena.unfolding budget id := by
  cases budget <;> simp [unfolding]

theorem children_of_context {arena : Arena} {id : NodeId} {context : Context}
    (h : arena.node? id = some (.context context)) : arena.children id = context.children := by
  simp [children, context?, h, Node.context?]

end Recognizer.Tree.Arena
