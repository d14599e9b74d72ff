import Recognizer.Config
import Recognizer.Trace.Hook
import Recognizer.Tree.Edit

/-!
# Building a tree from construction events

A recognizer drives a `Builder` while it parses: it enters a rule, takes a labelled alternative,
consumes tokens, reports the tokens that recovery skips, takes back what it matched on trial, and
exits the rule. The open activations are the current context and its ancestors, so the arena itself
is the stack, and exiting a rule follows a parent link.
-/

namespace Recognizer

open Recognizer.Tree (Arena Edit Fault NodeId)

/-- The state of a construction. -/
structure Builder (τ : Type) where
  arena : Arena
  /-- The context of the innermost open activation. -/
  current : Option NodeId
  /-- The context of the first activation. -/
  root : Option NodeId
  /-- The tokens consumed so far, newest first. -/
  consumed : List Token
  /-- Contexts and tokens are linked into a tree. -/
  buildsTree : Bool
  tracer : τ

/-- A computation that drives a builder. -/
abbrev Build (τ : Type) := EStateM Fault (Builder τ)

namespace Builder

/-- Nothing built yet. -/
def start {τ : Type} (config : Config) (tracer : τ) : Builder τ :=
  ⟨.empty, none, none, [], config.buildsTree, tracer⟩

variable {τ : Type}

/-- Change the arena of the builder. -/
def edit {α : Type} (change : Edit α) : Build τ α
  | ⟨arena, current, root, consumed, buildsTree, tracer⟩ =>
    match change arena with
    | .ok answer arena => .ok answer ⟨arena, current, root, consumed, buildsTree, tracer⟩
    | .error fault arena => .error fault ⟨arena, current, root, consumed, buildsTree, tracer⟩

def trace [Tracer τ] (hook : Hook) : Build τ Unit :=
  modify fun builder => { builder with tracer := Tracer.observe hook builder.tracer }

def setCurrent (current : Option NodeId) : Build τ Unit :=
  modify fun builder => { builder with current }

def setRoot (root : Option NodeId) : Build τ Unit :=
  modify fun builder => { builder with root }

/-- Begin an activation of a rule. The first one is the root; a later one has the current context as
its parent and, if trees are built, becomes a child of it. -/
def enter [Tracer τ] (rule : RuleIndex) (invokingState : Option StateId) (start : Token) :
    Build τ NodeId := do
  trace (.enter rule start)
  let current := (← get).current
  let context ← edit (Edit.create current invokingState (some rule))
  edit (Edit.setStart context start)
  match current with
  | some parent => if (← get).buildsTree then edit (Edit.addChild parent context)
  | none => if (← get).root.isNone then setRoot (some context)
  setCurrent (some context)
  return context

/-- End the current activation and return to its parent. Its stop is the newest consumed token,
which lies before its start if the rule matched nothing. -/
def exit [Tracer τ] : Build τ (Option NodeId) := do
  match (← get).current with
  | none => return none
  | some context =>
    let stop := (← get).consumed.head?
    match stop with
    | some token => edit (Edit.setStop context token)
    | none => pure ()
    trace (.exit stop)
    setCurrent ((← get).arena.parent? context)
    return some context

/-- Take a labelled alternative of the current activation. A new context takes over its rule,
parent, invoking state and span, and its place as the last child of the parent. The children of the
old context do not carry over. -/
def takeAlt [Tracer τ] (number : UInt32) : Build τ (Option NodeId) := do
  match (← get).current with
  | none => return none
  | some generic =>
    let labelled ← edit (Edit.create none none ((← get).arena.rule? generic))
    edit (Edit.inherit labelled generic)
    edit (Edit.setAlt labelled number)
    match (← get).arena.parent? generic with
    | some parent =>
      if ((← get).arena.children parent).getLast? = some generic then
        discard (edit (Edit.removeLastChild parent))
        edit (Edit.addChild parent labelled)
    | none => pure ()
    if (← get).root = some generic then setRoot (some labelled)
    trace (.alt number)
    setCurrent (some labelled)
    return some labelled

/-- Record a token, and append a leaf for it to the current context if trees are built. -/
def addToken (kind : Tree.LeafKind) (token : Token) : Build τ (Option NodeId) := do
  modify fun builder => { builder with consumed := token :: builder.consumed }
  match (← get).current, (← get).buildsTree with
  | some context, true => some <$> edit (Edit.addLeaf context kind token)
  | _, _ => return none

def consume [Tracer τ] (token : Token) : Build τ (Option NodeId) := do
  trace (.consume token)
  addToken .terminal token

def recover [Tracer τ] (token : Token) : Build τ (Option NodeId) := do
  trace (.error token)
  addToken .error token

/-- Take back the last child of the current context. The token of a leaf is no longer consumed if it
was the newest one. -/
def retract [Tracer τ] : Build τ (Option NodeId) := do
  match (← get).current with
  | none => return none
  | some context =>
    trace .retract
    match ← edit (Edit.removeLastChild context) with
    | none => return none
    | some child =>
      let token := (← get).arena.token? child
      modify fun builder =>
        if token.isSome ∧ builder.consumed.head? = token then
          { builder with consumed := builder.consumed.tail }
        else builder
      return some child

inductive Event
  | enter (rule : RuleIndex) (invokingState : Option StateId) (start : Token)
  | exit
  | alt (number : UInt32)
  | consume (token : Token)
  | recover (token : Token)
  | retract
  deriving DecidableEq, Repr

/-- Carry out an event; the answer is the context or leaf that it concerns, if there is one. -/
def Event.run [Tracer τ] : Event → Build τ (Option NodeId)
  | enter rule invokingState start => some <$> Builder.enter rule invokingState start
  | exit => Builder.exit
  | alt number => Builder.takeAlt number
  | consume token => Builder.consume token
  | recover token => Builder.recover token
  | retract => Builder.retract

end Builder

end Recognizer
