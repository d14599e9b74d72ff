import Recognizer.Builder.Basic
import Recognizer.Scope.Program

/-!
# Scoped constructions

Rule functions open an activation as a scope, which exits it however the body of the scope ends,
unless the scope is dismissed at its start. A session runs such a program on a builder and keeps a
checkpoint, the builder as it is at that moment, after every event, at the start and the end of
every scope, after every attempt and at every note. Scopes that a failure leaves have no checkpoint
of their end.
-/

namespace Recognizer.Builder

open Scope (Program Ending Semantics)
open Recognizer.Tree (Fault NodeId)

/-- The activation that a scope opens. -/
structure Opening where
  rule : RuleIndex
  invokingState : Option StateId
  start : Token
  /-- The end of the scope does not exit the activation. -/
  dismissed : Bool
  deriving DecidableEq, Repr

/-- A step of a scoped construction; `κ` is the type of notes. -/
inductive Action (κ : Type)
  | event (event : Event)
  | note (note : κ)
  deriving Repr

/-- What a checkpoint follows. -/
inductive Report (κ : Type)
  | event (event : Event) (answer : Option NodeId)
  | note (note : κ)
  | opened
  | closed
  | caught (ending : Ending)
  deriving Repr

/-- The builder at a moment of a session. -/
structure Checkpoint (τ κ : Type) where
  report : Report κ
  builder : Builder τ

/-- A builder and the checkpoints kept so far, newest last. -/
structure Session (τ κ : Type) where
  builder : Builder τ
  checkpoints : Array (Checkpoint τ κ)

variable {τ κ : Type}

namespace Session

/-- The session before its first step. -/
def start (builder : Builder τ) : Session τ κ :=
  ⟨builder, #[]⟩

def keep (report : Report κ) : Session τ κ → Session τ κ
  | ⟨builder, checkpoints⟩ => ⟨builder, checkpoints.push ⟨report, builder⟩⟩

/-- Drive the builder; a fault is a failure with its wording. -/
def drive {α : Type} (action : Build τ α) : EStateM String (Session τ κ) α
  | ⟨builder, checkpoints⟩ =>
    match action builder with
    | .ok answer builder => .ok answer ⟨builder, checkpoints⟩
    | .error fault builder => .error fault.message ⟨builder, checkpoints⟩

end Session

/-- The effect of a step. -/
def Action.apply [Tracer τ] : Action κ → EStateM String (Session τ κ) Unit
  | event e => do
    let answer ← Session.drive e.run
    modify (Session.keep (.event e answer))
  | note n => modify (Session.keep (.note n))

/-- The start of a scope. -/
def Opening.enter [Tracer τ] (opening : Opening) : EStateM String (Session τ κ) Unit := do
  discard (Session.drive (Builder.enter opening.rule opening.invokingState opening.start))
  modify (Session.keep .opened)

/-- The end of a scope whose body has ended in the given way. -/
def Opening.exit [Tracer τ] (opening : Opening) (ending : Ending) :
    EStateM String (Session τ κ) Unit := do
  unless opening.dismissed do
    discard (Session.drive Builder.exit)
  match ending with
  | .failed _ => pure ()
  | _ => modify (Session.keep .closed)

/-- The effects of the steps of scoped constructions. -/
def semantics [Tracer τ] : Semantics (Action κ) Opening (Session τ κ) where
  act := Action.apply
  enter := Opening.enter
  exit := Opening.exit
  caught ending session := session.keep (.caught ending)

/-- Run a program on a builder: how it ends, and the session that it leaves. -/
def runScoped [Tracer τ] (program : Program (Action κ) Opening) (builder : Builder τ) :
    Ending × Session τ κ :=
  program.run semantics (.start builder)

end Recognizer.Builder
