import Recognizer.Tree.Arena

/-!
# Ancestors

Parent links are followed upwards from a node. They end after at most as many steps as there are
nodes, unless they run in a circle. A query that would never end has no answer.
-/

namespace Recognizer.Tree

/-- The sequence from `id` on in which `next` gives the element after each, if it ends after at most
`budget` elements. -/
def follow (next : NodeId → Option NodeId) : Nat → NodeId → Option (List NodeId)
  | 0, _ => none
  | budget + 1, id =>
    match next id with
    | none => some [id]
    | some above => (follow next budget above).map (id :: ·)

namespace Arena

/-- An upward path without repetition has at most this many elements: all nodes, and one id that a
link names although no such node exists. -/
def pathLimit (arena : Arena) : Nat :=
  arena.size + 1

/-- The node and its ancestors, innermost first. -/
def lineage? (arena : Arena) (id : NodeId) : Option (List NodeId) :=
  follow arena.parent? arena.pathLimit id

/-- The number of ancestors of a node. -/
def depth? (arena : Arena) (id : NodeId) : Option Nat :=
  (arena.lineage? id).map fun ids => ids.length - 1

/-- The contexts from a node upwards, innermost first, up to the first node that is none. -/
def enclosing? (arena : Arena) (id : NodeId) : Option (List NodeId) :=
  let above id := (arena.context? id).bind Context.parent
  (follow above arena.pathLimit id).map fun ids =>
    ids.filter fun id => (arena.context? id).isSome

/-- Whether `target` is met on the way upwards from a node, the node included. The search stops at
`target`, and gives up after `budget` nodes. -/
def meets (arena : Arena) (target : NodeId) : Nat → NodeId → Option Bool
  | 0, _ => none
  | budget + 1, id =>
    if id = target then some true
    else
      match arena.parent? id with
      | none => some false
      | some above => arena.meets target budget above

/-- Whether `target` is the node itself or one of its ancestors. -/
def isAtOrAbove? (arena : Arena) (target id : NodeId) : Option Bool :=
  arena.meets target arena.pathLimit id

end Arena

end Recognizer.Tree
