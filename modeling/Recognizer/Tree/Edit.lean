import Recognizer.Tree.Ancestry
import Recognizer.Tree.Fault

/-!
# Edits of an arena

The operations that build a tree. An edit that is refused keeps what it has done up to then: a new
leaf stays in the arena although its context turned out not to be one, and a child keeps its new
parent link although it was not added to the children of that parent.
-/

namespace Recognizer.Tree

/-- A computation that changes an arena and may be refused. -/
abbrev Edit := EStateM Fault Arena

namespace Edit

def push (node : Node) : Edit NodeId := fun arena =>
  .ok ⟨arena.size⟩ ⟨arena.nodes.push node⟩

/-- The context behind an id, which must be one. -/
def getContext (id : NodeId) : Edit Context := fun arena =>
  match arena.node? id with
  | some (.context context) => .ok context arena
  | some (.leaf leaf) => .error (.notContext id leaf.kind) arena
  | none => .error (.noSuchContext id) arena

/-- Put a node in the place of an existing one. -/
def setNode (id : NodeId) (node : Node) : Edit Unit := fun arena =>
  .ok () ⟨arena.nodes.setIfInBounds id.index node⟩

/-- Change the context behind an id, which must be one. -/
def modifyContext (id : NodeId) (change : Context → Context) : Edit Unit := do
  let context ← getContext id
  setNode id (.context (change context))

/-- Append a node to the children of a context. -/
def appendChild (id child : NodeId) : Edit Unit :=
  modifyContext id fun context => context.withChildren (context.children ++ [child])

/-- Begin an activation. The parent is recorded but does not get a new child. -/
def create (parent : Option NodeId) (invokingState : Option StateId) (rule : Option RuleIndex) :
    Edit NodeId :=
  push (.context (.fresh parent invokingState rule))

/-- Copy parent, invoking state and span from `source` to `id`, whose rule, alternative and
children stay as they are. -/
def inherit (id source : NodeId) : Edit Unit := do
  let giver ← getContext source
  modifyContext id fun context => context.inherit giver

/-- Append a new leaf to the children of a context. -/
def addLeaf (id : NodeId) (kind : LeafKind) (token : Token) : Edit NodeId := do
  let leaf ← push (.leaf ⟨kind, token, id⟩)
  appendChild id leaf
  return leaf

/-- Refuse a child that is the context itself or one of its ancestors. -/
def checkAcyclic (id child : NodeId) : Edit Unit := fun arena =>
  match arena.isAtOrAbove? child id with
  | some false => .ok () arena
  | some true => .error (.cycle id child) arena
  | none => .error (.endless id) arena

def setParent (child parent : NodeId) : Edit Unit := fun arena =>
  match arena.node? child with
  | some node => setNode child (node.withParent parent) arena
  | none => .error (.noSuchChild child arena.size) arena

/-- Append an existing node to the children of a context, which becomes its parent. -/
def addChild (id child : NodeId) : Edit Unit := do
  checkAcyclic id child
  setParent child id
  appendChild id child

/-- Take the last child out of the children of a context. The child keeps its parent link. -/
def removeLastChild (id : NodeId) : Edit (Option NodeId) := do
  let context ← getContext id
  match context.children.getLast? with
  | none => return none
  | some child =>
    setNode id (.context (context.withChildren context.children.dropLast))
    return some child

def setStart (id : NodeId) (token : Token) : Edit Unit :=
  modifyContext id fun context => { context with start := some token }

def setStop (id : NodeId) (token : Token) : Edit Unit :=
  modifyContext id fun context => { context with stop := some token }

def setAlt (id : NodeId) (alt : UInt32) : Edit Unit :=
  modifyContext id fun context => { context with alt := some alt }

end Edit

/-- One edit of an arena with its arguments. -/
inductive Mutation
  | create (parent : Option NodeId) (invokingState : Option StateId) (rule : Option RuleIndex)
  | inherit (id source : NodeId)
  | addLeaf (id : NodeId) (kind : LeafKind) (token : Token)
  | addChild (id child : NodeId)
  | removeLastChild (id : NodeId)
  | setStart (id : NodeId) (token : Token)
  | setStop (id : NodeId) (token : Token)
  | setAlt (id : NodeId) (alt : UInt32)
  deriving DecidableEq, Repr

/-- Carry out an edit; the answer is the node that it created, added or took out. -/
def Mutation.run : Mutation → Edit (Option NodeId)
  | create parent invokingState rule => some <$> Edit.create parent invokingState rule
  | inherit id source => (fun _ => none) <$> Edit.inherit id source
  | addLeaf id kind token => some <$> Edit.addLeaf id kind token
  | addChild id child => (fun _ => some child) <$> Edit.addChild id child
  | removeLastChild id => Edit.removeLastChild id
  | setStart id token => (fun _ => none) <$> Edit.setStart id token
  | setStop id token => (fun _ => none) <$> Edit.setStop id token
  | setAlt id alt => (fun _ => none) <$> Edit.setAlt id alt

end Recognizer.Tree
