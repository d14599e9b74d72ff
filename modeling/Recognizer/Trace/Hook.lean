import Recognizer.Token

/-!
# Hooks

A builder tells its tracer of every construction event by a `Hook`. A tracer is any type whose
values can take up hooks; the builder itself keeps nothing for display.
-/

namespace Recognizer

/-- What a tracer is told. -/
inductive Hook
  /-- An activation of a rule begins at a token. -/
  | enter (rule : RuleIndex) (start : Token)
  /-- The innermost activation ends; the newest consumed token is its stop. -/
  | exit (stop : Option Token)
  /-- The innermost activation takes a labelled alternative. -/
  | alt (number : UInt32)
  /-- A token is matched. -/
  | consume (token : Token)
  /-- A token is rejected and kept as an error. -/
  | error (token : Token)
  /-- The newest child of the innermost activation is taken back. -/
  | retract
  deriving DecidableEq, Repr

/-- The values of `τ` take up hooks. -/
class Tracer (τ : Type) where
  observe : Hook → τ → τ

/-- The tracer that keeps nothing. -/
instance : Tracer Unit := ⟨fun _ _ => ()⟩

end Recognizer
