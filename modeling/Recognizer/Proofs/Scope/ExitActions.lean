import Recognizer.Proofs.Scope.Course
import Recognizer.Scope.Guarded

/-!
# Exit actions

A guard is dismissed and given texts by the steps of its own scope, and its exit action runs at the
end of that scope.  `Guard.after` is what the steps make of the guard, and `closing` is the entry of
the exit action, if it runs.

The log of a run is followed in two ways.  `run_guards` says that only the innermost guard changes
in a body, and by its own steps, so that each scope finds its own guard again when it ends.
`run_log` says that a run only adds to the log, and that the ends of blocks among what it adds are
those of the blocks that it executes, one after the other.
-/

namespace Recognizer.Scope.Guarded

/-! ## Guards and the ends of blocks -/

/-- The text that an action pushes. -/
def Action.pushed? : Action → Option String
  | push text => some text
  | note _ | dismiss | ask => none

/-- A guard after the actions of its scope. -/
def Guard.after (guard : Guard) (actions : List Action) : Guard where
  name := guard.name
  armed := guard.armed && decide (.dismiss ∉ actions)
  value := guard.value.map (· ++ actions.filterMap Action.pushed?)

/-- The guards after actions outside of all scopes, which act on the innermost guard. -/
def actOn (actions : List Action) : List Guard → List Guard
  | [] => []
  | guard :: outer => guard.after actions :: outer

/-- The actions in the body of a block, without those in the scopes of the body. -/
def bodyActions (execution : Execution Action Header State) : List Action :=
  (execution.body.ownActions semantics execution.begun).map Prod.fst

/-- What is logged at the end of a block. The exit action of a guard runs unless the body has
dismissed it, and it sees the texts that the guard owned at first and then those that the body has
pushed. -/
def closing (execution : Execution Action Header State) : List Entry :=
  match execution.block with
  | .attempt => [.caught execution.ending]
  | .scope header =>
    if .dismiss ∈ bodyActions execution then []
    else
      [.exited header.name (header.value.map fun initial =>
        initial ++ (bodyActions execution).filterMap Action.pushed? ++ [exitText])]

/-- The entry is one of the end of a block. -/
def Entry.isClosing : Entry → Bool
  | exited _ _ | caught _ => true
  | note _ | armed _ | pushed _ => false

theorem actOn_nil (guards : List Guard) : actOn [] guards = guards := by
  rcases guards with - | ⟨⟨name, armed, value⟩, outer⟩
  · rfl
  · cases value <;> simp [actOn, Guard.after]

theorem actOn_append (actions later : List Action) (guards : List Guard) :
    actOn (actions ++ later) guards = actOn later (actOn actions guards) := by
  rcases guards with - | ⟨⟨name, armed, value⟩, outer⟩
  · rfl
  · cases value <;> simp [actOn, Guard.after, Bool.and_assoc, not_or]

theorem Action.guards_apply (action : Action) (state : State) :
    (action.apply state).guards = actOn [action] state.guards := by
  rcases state with ⟨- | ⟨⟨name, armed, - | value⟩, outer⟩, log⟩ <;> cases action <;>
    simp [Action.apply, State.record, actOn, Guard.after, Action.pushed?]

/-- The end of a scope removes its guard, whose exit action runs if the guard is armed. -/
theorem State.exit_of_guards {state : State} {guard : Guard} {outer : List Guard}
    (innermost : state.guards = guard :: outer) :
    state.exit.guards = outer ∧
      state.exit.log.toList = state.log.toList ++
        if guard.armed then [.exited guard.name (guard.value.map (· ++ [exitText]))] else [] := by
  rcases state with ⟨guards, log⟩
  rcases guard with ⟨name, - | -, value⟩ <;> cases innermost
  · exact ⟨rfl, (List.append_nil _).symm⟩
  · exact ⟨rfl, Array.toList_push⟩

/-- The entries by which the log has grown contain the ends of these blocks and of no others. -/
def Grows (before after : State) (executed : List (Execution Action Header State)) : Prop :=
  ∃ entries, after.log.toList = before.log.toList ++ entries ∧
    entries.filter Entry.isClosing = executed.flatMap closing

theorem Grows.of_log_eq {before after : State} (same : after.log = before.log) :
    Grows before after [] :=
  ⟨[], by rw [same, List.append_nil], rfl⟩

theorem Grows.trans {before between after : State}
    {executed later : List (Execution Action Header State)} (grows : Grows before between executed)
    (growsLater : Grows between after later) : Grows before after (executed ++ later) := by
  obtain ⟨entries, written, closings⟩ := grows
  obtain ⟨more, writtenMore, closingsMore⟩ := growsLater
  refine ⟨entries ++ more, ?_, ?_⟩
  · rw [writtenMore, written, List.append_assoc]
  · rw [List.filter_append, closings, closingsMore, List.flatMap_append]

/-- An action logs one entry at most, which is not one of the end of a block. -/
theorem Action.grows (action : Action) (state : State) : Grows state (action.apply state) [] := by
  rcases state with ⟨- | ⟨⟨name, armed, - | value⟩, outer⟩, log⟩ <;> cases action <;>
    first
      | exact .of_log_eq rfl
      | exact ⟨[_], Array.toList_push, rfl⟩

theorem filter_closing (execution : Execution Action Header State) :
    (closing execution).filter Entry.isClosing = closing execution := by
  unfold closing
  split
  · rfl
  · split <;> rfl

/-! ## Runs -/

/-- No step fails on its own. -/
theorem serves : semantics.Serves fun _ => True where
  act _ _ _ := ⟨_, rfl, trivial⟩
  enter _ _ _ := ⟨_, rfl, trivial⟩
  exit _ _ _ _ := ⟨_, rfl, trivial⟩
  caught _ _ _ := trivial

/-- A run acts on the innermost guard by its own actions. The guards of its scopes come and go. -/
theorem run_guards (program : Program Action Header) (state : State) :
    (program.run semantics state).2.guards =
      actOn ((program.ownActions semantics state).map Prod.fst) state.guards := by
  induction program generalizing state with
  | finish | leave | fail => exact (actOn_nil _).symm
  | act action rest ih =>
    refine (ih (action.apply state)).trans ?_
    rw [action.guards_apply, ← actOn_append]
    rfl
  | attempt body rest ihBody ihRest =>
    rcases ran : body.run semantics state with ⟨ending, ended⟩
    have guards := ihBody state
    rw [ran] at guards
    rw [Program.run_attempt ran, Program.ownActions_attempt ran, List.map_append, actOn_append,
      ← guards]
    exact ihRest _
  | scope header body rest ihBody ihRest =>
    rcases ran : body.run semantics (state.enter header) with ⟨ending, ended⟩
    have guards := ihBody (state.enter header)
    rw [ran] at guards
    -- Whatever the body has made of the guard of the scope, the end takes it off.
    obtain ⟨outer, -⟩ := State.exit_of_guards guards
    rw [Program.run_scope rfl ran rfl, Program.ownActions_scope rfl ran rfl]
    rcases ending.message? with - | message
    · exact (ihRest _).trans (congrArg _ outer)
    · exact outer.trans (actOn_nil _).symm

/-- A block restores the guards around a scope, and its end is logged last. -/
theorem after_of_valid {execution : Execution Action Header State}
    (valid : execution.Valid semantics) :
    execution.after.log.toList = execution.ended.log.toList ++ closing execution := by
  cases valid with
  | attempt ran => exact Array.toList_push
  | @scope header body before begun ended after ending entered ran exited =>
    cases entered
    cases exited
    have guards := run_guards body (before.enter header)
    rw [ran] at guards
    refine (State.exit_of_guards guards).2.trans ?_
    simp only [closing, bodyActions, Guard.after, Bool.true_and, decide_eq_true_eq, ite_not,
      Option.map_map]
    rfl

theorem Grows.of_valid {execution : Execution Action Header State}
    (valid : execution.Valid semantics) : Grows execution.ended execution.after [execution] :=
  ⟨closing execution, after_of_valid valid, by simp [filter_closing]⟩

/-- A run logs the ends of the blocks that it executes, in the order in which they end. -/
theorem grows_run (program : Program Action Header) (state : State) :
    Grows state (program.run semantics state).2 (program.executions semantics state) := by
  induction program generalizing state with
  | finish | leave | fail => exact .of_log_eq rfl
  | act action rest ih => exact (action.grows state).trans (ih (action.apply state))
  | attempt body rest ihBody ihRest =>
    rcases ran : body.run semantics state with ⟨ending, ended⟩
    have grows := ihBody state
    rw [ran] at grows
    rw [Program.run_attempt ran, Program.executions_attempt ran]
    exact grows.trans ((Grows.of_valid (.attempt ran)).trans (ihRest _))
  | scope header body rest ihBody ihRest =>
    rcases ran : body.run semantics (state.enter header) with ⟨ending, ended⟩
    have opened : Grows state (state.enter header) [] := .of_log_eq rfl
    have grows := opened.trans (ihBody (state.enter header))
    rw [ran] at grows
    have valid : Execution.Valid semantics
        ⟨.scope header, body, state, state.enter header, ending, ended, ended.exit⟩ :=
      .scope rfl ran rfl
    have closed := Grows.of_valid valid
    rw [Program.run_scope rfl ran rfl, Program.executions_scope rfl ran rfl]
    refine grows.trans (closed.trans ?_)
    rcases ending.message? with - | message
    · exact ihRest _
    · exact .of_log_eq rfl

/-- What is logged after a block comes from the steps after it. -/
theorem grows_after_executed (program : Program Action Header) (state : State) :
    ∀ execution ∈ program.executions semantics state,
      ∃ later, Grows execution.after (program.run semantics state).2 later := by
  induction program generalizing state with
  | finish | leave | fail => exact fun _ executed => nomatch executed
  | act action rest ih => exact ih (action.apply state)
  | attempt body rest ihBody ihRest =>
    rcases ran : body.run semantics state with ⟨ending, ended⟩
    have inBody := ihBody state
    rw [ran] at inBody
    have rested := grows_run rest (semantics.caught ending ended)
    rw [Program.run_attempt ran, Program.executions_attempt ran]
    refine List.forall_mem_append.mpr ⟨fun execution executed => ?_, ?_⟩
    · obtain ⟨later, grows⟩ := inBody execution executed
      exact ⟨_, grows.trans ((Grows.of_valid (.attempt ran)).trans rested)⟩
    · exact List.forall_mem_cons.mpr ⟨⟨_, rested⟩, ihRest _⟩
  | scope header body rest ihBody ihRest =>
    rcases ran : body.run semantics (state.enter header) with ⟨ending, ended⟩
    have inBody := ihBody (state.enter header)
    rw [ran] at inBody
    have valid : Execution.Valid semantics
        ⟨.scope header, body, state, state.enter header, ending, ended, ended.exit⟩ :=
      .scope rfl ran rfl
    have closed := Grows.of_valid valid
    have around {final : State} {later : List (Execution Action Header State)}
        (rested : Grows ended.exit final later) :
        ∀ execution ∈ body.executions semantics (state.enter header),
          ∃ later, Grows execution.after final later := fun execution executed =>
      let ⟨_, grows⟩ := inBody execution executed
      ⟨_, grows.trans (closed.trans rested)⟩
    rw [Program.run_scope rfl ran rfl, Program.executions_scope rfl ran rfl]
    rcases ending.message? with - | message
    · have rested := grows_run rest ended.exit
      refine List.forall_mem_append.mpr ⟨around rested, List.forall_mem_cons.mpr ?_⟩
      exact ⟨⟨_, rested⟩, ihRest _⟩
    · have rested : Grows ended.exit ended.exit [] := .of_log_eq rfl
      refine List.forall_mem_append.mpr ⟨around rested, List.forall_mem_singleton.mpr ?_⟩
      exact ⟨_, rested⟩

theorem log_begun {execution : Execution Action Header State}
    (valid : execution.Valid semantics) : execution.begun.log = execution.before.log := by
  cases valid with
  | attempt ran => rfl
  | scope entered ran exited =>
    cases entered
    rfl

/-- The end of every block that is executed is logged exactly once: after everything that its body
logs, among it the ends of the blocks in the body, and before everything that is logged after the
block. An exit action that has been dismissed in the body is not run at all, and one that is run
sees the first texts of its guard with those pushed in the body. A failure ends all bodies around it
up to the nearest attempt, which meets it with the same message. -/
theorem exits_once_in_order (program : Program Action Header) :
    (run program).2.toList.filter Entry.isClosing =
        (program.executions semantics .initial).flatMap closing ∧
      (∀ execution ∈ program.executions semantics .initial,
        execution.Valid semantics ∧
        (∃ effects,
          execution.ended.log.toList = execution.before.log.toList ++ effects ∧
          effects.filter Entry.isClosing =
            (execution.body.executions semantics execution.begun).flatMap closing) ∧
        execution.after.log.toList = execution.ended.log.toList ++ closing execution ∧
        (∃ later, (run program).2.toList = execution.after.log.toList ++ later) ∧
        execution.ending.message? = execution.body.raised) ∧
      (run program).1.message? = program.raised := by
  obtain ⟨entries, written, closings⟩ := grows_run program .initial
  have all : (run program).2.toList = entries := written
  refine ⟨all ▸ closings, fun execution executed => ?_, serves.message?_run program trivial⟩
  obtain ⟨valid, -⟩ := serves.valid program trivial execution executed
  obtain ⟨effects, inBody, inner⟩ := grows_run execution.body execution.begun
  obtain ⟨-, later, after, -⟩ := grows_after_executed program .initial execution executed
  have message := serves.message?_run execution.body (s := execution.begun) trivial
  rw [valid.ran] at inBody message
  rw [log_begun valid] at inBody
  exact ⟨valid, ⟨effects, inBody, inner⟩, after_of_valid valid, ⟨later, after⟩, message⟩

/-- A guard with a text, around one that is dismissed in an attempt before the body fails. -/
def failureInGuards : Program Action Header :=
  .attempt
    (.scope ⟨"outer", some ["a"]⟩
      (.act (.push "b") <|
        .scope ⟨"inner", none⟩ (.attempt (.act .dismiss .leave) (.act (.note "c") (.fail "d")))
          (.act (.note "e") .finish))
      .finish)
    .finish

/-- Only the outer exit action runs, before the attempt meets the failure. -/
theorem exits_of_failureInGuards :
    (run failureInGuards).2.toList.filter Entry.isClosing =
      [.caught .left, .exited "outer" (some ["a", "b", "exit"]), .caught (.failed "d")] :=
  (exits_once_in_order failureInGuards).1.trans (by decide +kernel)

end Recognizer.Scope.Guarded
