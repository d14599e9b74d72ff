import Recognizer.Interval
import Recognizer.Tree.Node

/-!
# Arenas

An `Arena` keeps the nodes of one or more parse trees in the order of their creation. Nodes are only
ever added: a node that is taken out of its parent's child list stays in the arena.

Every query is total. It answers with nothing, an empty list or an unset span when it is asked for a
node that does not exist or for something that the node does not have.
-/

namespace Recognizer.Tree

/-- Nodes in the order of their creation. -/
structure Arena where
  nodes : Array Node
  deriving DecidableEq, Repr

namespace Arena

/-- The arena without nodes. -/
def empty : Arena := ⟨#[]⟩

instance : Inhabited Arena := ⟨empty⟩

def size (arena : Arena) : Nat :=
  arena.nodes.size

def node? (arena : Arena) (id : NodeId) : Option Node :=
  arena.nodes[id.index]?

def context? (arena : Arena) (id : NodeId) : Option Context :=
  (arena.node? id).bind Node.context?

def parent? (arena : Arena) (id : NodeId) : Option NodeId :=
  (arena.node? id).bind Node.parent?

def token? (arena : Arena) (id : NodeId) : Option Token :=
  (arena.node? id).bind Node.token?

def rule? (arena : Arena) (id : NodeId) : Option RuleIndex :=
  (arena.context? id).bind Context.rule

def alt? (arena : Arena) (id : NodeId) : Option UInt32 :=
  (arena.context? id).bind Context.alt

def start? (arena : Arena) (id : NodeId) : Option Token :=
  (arena.context? id).bind Context.start

def stop? (arena : Arena) (id : NodeId) : Option Token :=
  (arena.context? id).bind Context.stop

/-- The state from which a context was called. -/
def invokingState? (arena : Arena) (id : NodeId) : Option StateId :=
  (arena.context? id).bind Context.invokingState

/-- The node is a context that was not entered by a rule call. -/
def isUninvoked (arena : Arena) (id : NodeId) : Bool :=
  match arena.context? id with
  | some context => context.invokingState.isNone
  | none => false

/-! ## Children -/

/-- The children of a context, in the order of the input. -/
def children (arena : Arena) (id : NodeId) : List NodeId :=
  match arena.context? id with
  | some context => context.children
  | none => []

/-- The children that are leaves with a token of the given type. -/
def leavesOfType (arena : Arena) (id : NodeId) (type : Symbol) : List NodeId :=
  (arena.children id).filter fun child =>
    match arena.token? child with
    | some token => token.type == type
    | none => false

/-- The children that are contexts of the given rule. -/
def contextsOfRule (arena : Arena) (id : NodeId) (rule : RuleIndex) : List NodeId :=
  (arena.children id).filter fun child => arena.rule? child == some rule

/-! ## Spans -/

/-- The token indices that a node spans: those from the start to the stop of a context that has
both, or the one of a leaf. -/
def span (arena : Arena) (id : NodeId) : Interval :=
  match arena.node? id with
  | some (.leaf leaf) => ⟨leaf.token.index, leaf.token.index⟩
  | some (.context ⟨_, _, _, _, some start, some stop, _⟩) => ⟨start.index, stop.index⟩
  | _ => .unset

end Arena

end Recognizer.Tree
