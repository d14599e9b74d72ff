import Recognizer.Tree.Unfolding

/-!
# Walks

A walk visits the nodes below a node depth first, children in order, and reports what it meets. A
context is entered before its children and left after them; each time it is reported as such, and
by its rule if it belongs to one. A node that does not exist is passed over.

The walk keeps a stack of pending tasks, so a deep tree needs no deep recursion.
-/

namespace Recognizer.Tree

/-- What a walk reports. -/
inductive Visit
  | terminal (id : NodeId)
  | error (id : NodeId)
  /-- A context is entered. -/
  | enterEvery (id : NodeId)
  /-- A context of a rule is entered. -/
  | enter (id : NodeId) (rule : RuleIndex)
  /-- A context of a rule is left. -/
  | exit (id : NodeId) (rule : RuleIndex)
  /-- A context is left. -/
  | exitEvery (id : NodeId)
  deriving DecidableEq, Repr

def Visit.ofLeaf (id : NodeId) : LeafKind → Visit
  | .terminal => .terminal id
  | .error => .error id

/-- A task of a walk. -/
inductive Task
  /-- Visit a node, with a budget of contexts on the path from there. -/
  | visit (budget : Nat) (id : NodeId)
  /-- Report that a context is left. -/
  | leave (id : NodeId)
  deriving DecidableEq, Repr

namespace Arena

/-- The report that a context is entered by its rule, if it has one. -/
def enterRule (arena : Arena) (id : NodeId) : List Visit :=
  (arena.rule? id).toList.map (.enter id)

/-- The report that a context is left by its rule, if it has one. -/
def exitRule (arena : Arena) (id : NodeId) : List Visit :=
  (arena.rule? id).toList.map (.exit id)

/-- The number of tasks that a task unfolds into, at most. -/
def taskWeight (arena : Arena) : Task → Nat
  | .visit budget id => arena.unfolding budget id
  | .leave _ => 1

theorem total_taskWeight_visit (arena : Arena) (budget : Nat) (ids : List NodeId) :
    total (ids.map (arena.taskWeight ∘ Task.visit budget)) =
      total (ids.map (arena.unfolding budget)) := rfl

/-- Do the pending tasks in order, adding to what has been reported. -/
def walkTasks (arena : Arena) : List Task → Array Visit → Option (Array Visit)
  | [], out => some out
  | .leave id :: pending, out =>
    arena.walkTasks pending (out.appendList (arena.exitRule id) |>.push (.exitEvery id))
  | .visit budget id :: pending, out =>
    match _atNode : arena.node? id with
    | none => arena.walkTasks pending out
    | some (.leaf leaf) => arena.walkTasks pending (out.push (.ofLeaf id leaf.kind))
    | some (.context context) =>
      match budget with
      | 0 => none
      | budget + 1 =>
        arena.walkTasks (context.children.map (.visit budget) ++ .leave id :: pending)
          ((out.push (.enterEvery id)).appendList (arena.enterRule id))
termination_by tasks => total (tasks.map arena.taskWeight)
decreasing_by
  · simp [total_cons, taskWeight]
  · have := arena.one_le_unfolding budget id
    simp [total_cons, taskWeight]
    omega
  · have := arena.one_le_unfolding budget id
    simp [total_cons, taskWeight]
    omega
  · simp [total_taskWeight_visit, total_append, total_cons, taskWeight, unfolding,
      children_of_context _atNode]
    omega

/-- What a walk from a node reports, if the walk ends. -/
def walk? (arena : Arena) (id : NodeId) : Option (Array Visit) :=
  arena.walkTasks [.visit arena.heightLimit id] #[]

end Arena

end Recognizer.Tree
