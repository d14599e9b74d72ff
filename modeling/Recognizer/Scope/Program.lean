/-!
# Programs of nested scopes

A `Program` is a sequence of steps. Some steps act on a state, and others hold a body: a scope does
something on entry and on exit, and an attempt stops a failure of its body. A body ends at its last
step, by an early return or by a failure; the first two let the steps after it go on, and a failure
ends all bodies around it up to the nearest attempt. A scope is left however its body ends.
-/

namespace Recognizer.Scope

/-- Steps with actions `α` and scopes that are opened by `β`. -/
inductive Program (α β : Type)
  /-- The last step is done. -/
  | finish
  /-- End the enclosing body early. -/
  | leave
  /-- Fail with a message. -/
  | fail (message : String)
  | act (action : α) (rest : Program α β)
  /-- Run a body and stop its failure. -/
  | attempt (body rest : Program α β)
  /-- Run a body inside a scope. -/
  | scope (header : β) (body rest : Program α β)
  deriving Repr

/-- How a body has ended. -/
inductive Ending
  | done
  | left
  | failed (message : String)
  deriving DecidableEq, Repr

/-- What the steps of a program do to a state; an error is the message of a failure. -/
structure Semantics (α β σ : Type) where
  act : α → EStateM String σ Unit
  /-- What is done before the body of a scope. -/
  enter : β → EStateM String σ Unit
  /-- What is done after the body of a scope, which has ended in the given way. -/
  exit : β → Ending → EStateM String σ Unit
  /-- What is done after the body of an attempt. -/
  caught : Ending → σ → σ

variable {α β σ : Type}

/-- Run a program from a state: how it ends, and the state that it leaves. -/
def Program.run (sem : Semantics α β σ) : Program α β → σ → Ending × σ
  | finish, s => (.done, s)
  | leave, s => (.left, s)
  | fail message, s => (.failed message, s)
  | act action rest, s =>
    match sem.act action s with
    | .ok _ s => rest.run sem s
    | .error message s => (.failed message, s)
  | attempt body rest, s =>
    match body.run sem s with
    | (ending, s) => rest.run sem (sem.caught ending s)
  | scope header body rest, s =>
    match sem.enter header s with
    | .error message s => (.failed message, s)
    | .ok _ s =>
      match body.run sem s with
      | (ending, s) =>
        match sem.exit header ending s, ending with
        | .error message s, _ => (.failed message, s)
        | .ok _ s, .failed message => (.failed message, s)
        | .ok _ s, _ => rest.run sem s

end Recognizer.Scope
