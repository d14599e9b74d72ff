import Recognizer.Tree.Unfolding

/-!
# Text of a subtree

The display texts of the leaves below a node, in order and without anything between them.
-/

namespace Recognizer.Tree.Arena

/-- The number of tasks that a pending node unfolds into, at most. -/
def pendingWeight (arena : Arena) (pending : Nat × NodeId) : Nat :=
  arena.unfolding pending.1 pending.2

theorem total_pendingWeight_mk (arena : Arena) (budget : Nat) (ids : List NodeId) :
    total (ids.map (arena.pendingWeight ∘ Prod.mk budget)) =
      total (ids.map (arena.unfolding budget)) := rfl

/-- Add the text of the pending nodes, each with its budget of contexts, to `out`. -/
def collectText (arena : Arena) : List (Nat × NodeId) → String → Option String
  | [], out => some out
  | (budget, id) :: pending, out =>
    match _atNode : arena.node? id with
    | none => arena.collectText pending out
    | some (.leaf leaf) => arena.collectText pending (out ++ leaf.token.displayText)
    | some (.context context) =>
      match budget with
      | 0 => none
      | budget + 1 => arena.collectText (context.children.map (Prod.mk budget) ++ pending) out
termination_by tasks => total (tasks.map arena.pendingWeight)
decreasing_by
  · have := arena.one_le_unfolding budget id
    simp [total_cons, pendingWeight]
    omega
  · have := arena.one_le_unfolding budget id
    simp [total_cons, pendingWeight]
    omega
  · simp [total_pendingWeight_mk, total_append, total_cons, pendingWeight, unfolding,
      children_of_context _atNode]

/-- The text of all leaves below a node, if following the child lists ends. -/
def text? (arena : Arena) (id : NodeId) : Option String :=
  arena.collectText [(arena.heightLimit, id)] ""

end Recognizer.Tree.Arena
