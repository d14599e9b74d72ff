import Recognizer.Token

/-!
# Nodes of parse trees

A parse tree has a leaf for every token and a rule context for every activation of a rule. Nodes are
kept in an arena and refer to each other by their positions in it.
-/

namespace Recognizer.Tree

/-- A node of an arena, by its position in the order of creation. -/
structure NodeId where
  index : Nat
  deriving DecidableEq, Repr

/-- Why a leaf is in the tree. -/
inductive LeafKind
  /-- Its token was matched. -/
  | terminal
  /-- Its token did not fit the grammar and was skipped. -/
  | error
  deriving DecidableEq, Repr

/-- The token of a leaf, and the context in which it stands. -/
structure Leaf where
  kind : LeafKind
  token : Token
  parent : NodeId
  deriving DecidableEq, Repr

/-- An activation of a rule. -/
structure Context where
  parent : Option NodeId
  /-- The state from which the rule was called; a root has none. -/
  invokingState : Option StateId
  /-- The rule; a generic context has none. -/
  rule : Option RuleIndex
  /-- The labelled alternative that was chosen. -/
  alt : Option UInt32
  /-- The first token of the span. -/
  start : Option Token
  /-- The last token of the span. -/
  stop : Option Token
  children : List NodeId
  deriving DecidableEq, Repr

/-- A node of a parse tree. -/
inductive Node
  | leaf (leaf : Leaf)
  | context (context : Context)
  deriving DecidableEq, Repr

namespace Context

/-- A context that has only a parent, an invoking state and a rule, each of which may be missing. -/
def fresh (parent : Option NodeId) (invokingState : Option StateId) (rule : Option RuleIndex) :
    Context :=
  ⟨parent, invokingState, rule, none, none, none, []⟩

def withParent (context : Context) (parent : Option NodeId) : Context :=
  { context with parent }

def withChildren (context : Context) (children : List NodeId) : Context :=
  { context with children }

/-- The context with the parent, the invoking state and the span of another. -/
def inherit (context source : Context) : Context :=
  { context with
    parent := source.parent
    invokingState := source.invokingState
    start := source.start
    stop := source.stop }

end Context

namespace Node

def parent? : Node → Option NodeId
  | leaf l => some l.parent
  | context c => c.parent

def withParent (parent : NodeId) : Node → Node
  | leaf l => leaf ⟨l.kind, l.token, parent⟩
  | context c => context (c.withParent (some parent))

def token? : Node → Option Token
  | leaf l => some l.token
  | context _ => none

def context? : Node → Option Context
  | leaf _ => none
  | context c => some c

def leaf? : Node → Option Leaf
  | leaf l => some l
  | context _ => none

end Node

end Recognizer.Tree
