import Recognizer.Scope.Program

/-!
# Guarded scopes

A guard runs an exit action when its scope ends, unless it has been dismissed before. It may own a
list of texts, which the body of the scope extends and the exit action sees last. The steps of a
body act on the innermost guard around them; what happens is written to a log.
-/

namespace Recognizer.Scope.Guarded

/-- A guard of an open scope. -/
structure Guard where
  name : String
  /-- The exit action has not been dismissed. -/
  armed : Bool
  /-- The owned texts, if the guard owns any. -/
  value : Option (List String)
  deriving DecidableEq, Repr

/-- A scope with its guard: the guard's name, and the texts that it owns at first. -/
structure Header where
  name : String
  value : Option (List String)
  deriving DecidableEq, Repr

/-- A step that acts on the innermost guard or on the log. -/
inductive Action
  /-- Write a text to the log. -/
  | note (text : String)
  /-- Dismiss the innermost guard. -/
  | dismiss
  /-- Ask whether the innermost guard is armed. -/
  | ask
  /-- Extend the texts of the innermost guard. -/
  | push (text : String)
  deriving DecidableEq, Repr

/-- An entry of the log. -/
inductive Entry
  | note (text : String)
  /-- Whether the innermost guard is armed, if there is one that owns nothing. -/
  | armed (answer : Option Bool)
  /-- The number of owned texts after a push, if the innermost guard owns texts. -/
  | pushed (length : Option Nat)
  /-- An attempt is over. -/
  | caught (ending : Ending)
  /-- The exit action of a guard has run, with the texts that it left. -/
  | exited (name : String) (value : Option (List String))
  deriving DecidableEq, Repr

/-- The open guards, innermost first, and the log, newest entry last. -/
structure State where
  guards : List Guard
  log : Array Entry
  deriving DecidableEq, Repr

/-- No open guard and an empty log. -/
def State.initial : State := ⟨[], #[]⟩

/-- The state with one more entry in the log. -/
def State.record (state : State) (entry : Entry) : State :=
  ⟨state.guards, state.log.push entry⟩

/-- The text that the exit action adds to the texts of its guard. -/
def exitText : String := "exit"

/-- The effect of an action. -/
def Action.apply : Action → State → State
  | note text, s => s.record (.note text)
  | dismiss, s =>
    match s.guards with
    | [] => s
    | guard :: outer => ⟨⟨guard.name, false, guard.value⟩ :: outer, s.log⟩
  | ask, s =>
    match s.guards with
    | ⟨_, armed, none⟩ :: _ => s.record (.armed (some armed))
    | _ => s.record (.armed none)
  | push text, s =>
    match s.guards with
    | ⟨name, armed, some value⟩ :: outer =>
      ⟨⟨name, armed, some (value ++ [text])⟩ :: outer,
        s.log.push (.pushed (some (value.length + 1)))⟩
    | _ => s.record (.pushed none)

/-- Open a scope with an armed guard. -/
def State.enter (state : State) (header : Header) : State :=
  ⟨⟨header.name, true, header.value⟩ :: state.guards, state.log⟩

/-- Close the innermost scope: its exit action runs if the guard is still armed. -/
def State.exit (state : State) : State :=
  match state.guards with
  | [] => state
  | ⟨name, true, value⟩ :: outer =>
    ⟨outer, state.log.push (.exited name (value.map (· ++ [exitText])))⟩
  | ⟨_, false, _⟩ :: outer => ⟨outer, state.log⟩

/-- The effects of the steps of a program; none of them fails on its own. -/
def semantics : Semantics Action Header State where
  act action := modify action.apply
  enter header := modify (·.enter header)
  exit _ _ := modify State.exit
  caught ending state := state.record (.caught ending)

/-- Run a program without open guards: how it ends, and the log. -/
def run (program : Program Action Header) : Ending × Array Entry :=
  match program.run semantics .initial with
  | (ending, state) => (ending, state.log)

end Recognizer.Scope.Guarded
