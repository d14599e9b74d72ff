import Recognizer.Builder.Scoped
import Recognizer.Proofs.Builder.Narration
import Recognizer.Proofs.Builder.Spans
import Recognizer.Proofs.Scope.Course

/-!
# The end of a scoped activation

The end of a scope exits whatever activation is current.  Here that is shown to be the one that the
scope has opened, or the labelled context that has taken its place in the body, however the body
ends.

`Unstopped` says that the open contexts form a given stack and that none of them has a stop yet,
which every event keeps for some stack.  A program whose activations are opened and closed by
scopes alone changes the top of the stack only, and by its own labels (`Unstopped.run`): all that
its scopes open is closed again.
-/

namespace Recognizer.Builder

open Recognizer.Tree (Arena Context NodeId)
open Scope (Block Ending Execution Program)

/-! ## Open contexts have no stop -/

section Builders

variable {τ : Type} {builder : Builder τ} {stack below : List NodeId} {id : NodeId}

/-- The stack is that of the open contexts, innermost first, and none of them has a stop. -/
structure Unstopped (builder : Builder τ) (stack : List NodeId) : Prop where
  sound : builder.Sound
  mirrors : builder.Mirrors stack
  unstopped : ∀ id ∈ stack, builder.arena.stop? id = none

/-- The stack after labelled contexts have taken the place of its top, one after the other. -/
def relabelled (labels : List NodeId) : List NodeId → List NodeId
  | [] => []
  | id :: below => labels.getLastD id :: below

theorem relabelled_nil (stack : List NodeId) : relabelled [] stack = stack := by
  cases stack <;> rfl

theorem relabelled_append (labels later stack : List NodeId) :
    relabelled (labels ++ later) stack = relabelled later (relabelled labels stack) := by
  rcases stack with - | ⟨id, below⟩
  · rfl
  · simp [relabelled, List.getLastD_eq_getLast?, List.getLast?_append]

theorem start_unstopped (config : Config) (tracer : τ) : (start config tracer).Unstopped [] where
  sound := start_sound config tracer
  mirrors := start_mirrors config tracer
  unstopped := by simp

/-- A context that is added and listed has the stop that it was made with. -/
theorem stop?_new {arena after : Arena} (context : Context)
    (retains : (arena.push (.context context)).Retains after) :
    after.stop? arena.nextId = context.stop := by
  rw [retains.stop? (Arena.isContext_push_nextId arena context), Arena.stop?, Arena.context?_push,
    if_pos rfl]
  rfl

theorem Unstopped.retains (unstopped : builder.Unstopped stack) {after : Builder τ}
    (sound : after.Sound) (mirrors : after.Mirrors stack)
    (retains : builder.arena.Retains after.arena) :
    after.Unstopped stack where
  sound := sound
  mirrors := mirrors
  unstopped id member :=
    (retains.stop? (unstopped.mirrors.path.isContext id member)).trans
      (unstopped.unstopped id member)

variable [Tracer τ]

namespace Unstopped

theorem enter (unstopped : builder.Unstopped stack) (rule : RuleIndex)
    (invokingState : Option StateId) (start : Token) :
    ((Event.enter rule invokingState start).next builder).Unstopped
      (builder.arena.nextId :: stack) where
  sound := unstopped.sound.next _
  mirrors := unstopped.mirrors.enter_step rule invokingState start
  unstopped := by
    have grown := builder.grow_retains_push builder.current
      (.context (opened builder.current invokingState rule start))
    have retains := (Arena.Retains.push builder.arena _).trans grown
    refine List.forall_mem_cons.mpr ⟨stop?_new _ grown, fun id member => ?_⟩
    exact (retains.stop? (unstopped.mirrors.path.isContext id member)).trans
      (unstopped.unstopped id member)

/-- Below a context that is exited the stack is as it was, and the context gets the newest token as
its stop. -/
theorem exit (unstopped : builder.Unstopped (id :: below)) :
    (Event.exit.next builder).Unstopped below ∧
      (Event.exit.next builder).arena.IsContext id ∧
      (Event.exit.next builder).arena.stop? id = builder.consumed.head? := by
  have isContext := unstopped.mirrors.path.isContext id List.mem_cons_self
  obtain ⟨top, others⟩ := List.forall_mem_cons.mp unstopped.unstopped
  obtain ⟨outside, -⟩ := List.nodup_cons.mp (unstopped.mirrors.nodup unstopped.sound)
  have arena := exit_arena unstopped.mirrors.current
  refine ⟨⟨unstopped.sound.next _, unstopped.mirrors.exit_step, fun other member => ?_⟩, ?_, ?_⟩
  · rw [arena, Arena.stop?, Arena.context?_modify_onContext, if_neg fun same => ?_]
    · exact others other member
    · exact outside (same ▸ member)
  · rw [arena]
    exact Arena.isContext_modify_onContext.mpr isContext
  · obtain ⟨context, found⟩ := Option.isSome_iff_exists.mp isContext
    rw [Arena.stop?, found] at top
    rw [arena, Arena.stop?, Arena.context?_modify_onContext, if_pos rfl, found]
    -- Without a token the context keeps its stop, so that it matters that it has none.
    change builder.consumed.head?.or context.stop = builder.consumed.head?
    rw [show context.stop = none from top, Option.or_none]

/-- A labelled context takes the place of the innermost open one. -/
theorem alt (unstopped : builder.Unstopped (id :: below)) (number : UInt32) :
    ((Event.alt number).next builder).Unstopped (builder.arena.nextId :: below) := by
  have isContext := unstopped.mirrors.path.isContext id List.mem_cons_self
  obtain ⟨context, found⟩ := Option.isSome_iff_exists.mp isContext
  obtain ⟨top, others⟩ := List.forall_mem_cons.mp unstopped.unstopped
  rw [Arena.stop?, found] at top
  have relabelled := relabel_retains_push builder.arena id context number
  have retains := (Arena.Retains.push builder.arena _).trans relabelled
  have arena : ((Event.alt number).next builder).arena =
      relabel builder.arena id context number := by
    rw [Event.next_alt unstopped.mirrors.current found]
  refine ⟨unstopped.sound.next _, unstopped.mirrors.alt_step rfl number, ?_⟩
  rw [arena]
  refine List.forall_mem_cons.mpr ⟨(stop?_new _ relabelled).trans top, fun other member => ?_⟩
  have wasContext := unstopped.mirrors.path.isContext other (List.mem_cons_of_mem _ member)
  exact (retains.stop? wasContext).trans (others other member)

theorem takeAlt (unstopped : builder.Unstopped stack) (number : UInt32) :
    ((Event.alt number).next builder).Unstopped
      (relabelled ((Event.alt number).answer builder).toList stack) := by
  rcases stack with - | ⟨id, below⟩
  · have same : (Event.alt number).next builder = builder :=
      Event.Inner.next_closed trivial unstopped.mirrors.current
    rw [same]
    exact unstopped
  · have labelled : (Event.alt number).answer builder = some builder.arena.nextId := by
      simp only [Event.answer, unstopped.mirrors.current, List.head?_cons, Option.map_some]
    rw [labelled]
    exact unstopped.alt number

theorem recorded (unstopped : builder.Unstopped stack) (kind : Tree.LeafKind) (hook : Hook)
    (token : Token) : (builder.recorded kind hook token).Unstopped stack := by
  have retains : builder.arena.Retains (builder.sprout kind token) := by
    unfold sprout
    split
    · exact (Arena.Retains.push _ _).trans (.append _ _ _)
    · exact .refl _
  exact unstopped.retains (unstopped.sound.recorded kind hook token)
    (unstopped.mirrors.keeps (builder.sprout_keeps kind token) rfl) retains

theorem retract (unstopped : builder.Unstopped stack) :
    (Event.retract.next builder).Unstopped stack := by
  unfold Event.next
  rcases isCurrent : builder.current with - | id
  · exact unstopped
  · refine unstopped.retains ?_ ?_ (.dropLast _ id)
    · have sound := unstopped.sound.next .retract
      simpa only [Event.next, isCurrent] using sound
    · exact unstopped.mirrors.keeps (.dropLast _ id) isCurrent.symm

/-- The open contexts stay without a stop, whatever the event. -/
theorem next (unstopped : builder.Unstopped stack) (event : Event) :
    ∃ stack, (event.next builder).Unstopped stack := by
  cases event with
  | enter rule invokingState start => exact ⟨_, unstopped.enter rule invokingState start⟩
  | exit =>
    rcases stack with - | ⟨id, below⟩
    · have same : Event.exit.next builder = builder :=
        Event.Inner.next_closed trivial unstopped.mirrors.current
      exact ⟨[], same.symm ▸ unstopped⟩
    · exact ⟨below, unstopped.exit.1⟩
  | alt number => exact ⟨_, unstopped.takeAlt number⟩
  | consume token => exact ⟨stack, unstopped.recorded .terminal (.consume token) token⟩
  | recover token => exact ⟨stack, unstopped.recorded .error (.error token) token⟩
  | retract => exact ⟨stack, unstopped.retract⟩

theorem foldl (unstopped : builder.Unstopped stack) (events : List Event) :
    ∃ stack, (events.foldl Event.next builder).Unstopped stack := by
  induction events generalizing builder stack with
  | nil => exact ⟨stack, unstopped⟩
  | cons event events ih =>
    obtain ⟨after, unstoppedAfter⟩ := unstopped.next event
    exact ih unstoppedAfter

end Unstopped

end Builders

/-! ## Steps of a scoped construction -/

section Sessions

variable {τ κ : Type} [Tracer τ] {session begun ended : Session τ κ} {stack below : List NodeId}
  {id : NodeId} {opening : Opening} {body : Program (Action κ) Opening}

/-- The action neither begins nor ends an activation. -/
def Action.Within : Action κ → Prop
  | event (.enter _ _ _) | event .exit => False
  | event (.alt _) | event (.consume _) | event (.recover _) | event .retract | note _ => True

/-- Activations are begun and ended by the scopes of a program, and by all of them. -/
def Scoped (program : Program (Action κ) Opening) : Prop :=
  program.All Action.Within fun opening => opening.dismissed = false

instance (program : Program (Action κ) Opening) : Decidable (Scoped program) :=
  have : DecidablePred (Action.Within (κ := κ)) := fun action =>
    match action with
    | .event (.enter _ _ _) | .event .exit => isFalse False.elim
    | .event (.alt _) | .event (.consume _) | .event (.recover _) | .event .retract
    | .note _ => isTrue trivial
  Program.All.decide _ _ program

/-- The labelled context that an action makes of the innermost open one. -/
def Action.label? : Action κ × Session τ κ → Option NodeId
  | (event (.alt number), session) =>
    match takeAlt number session.builder with
    | .ok labelled _ => labelled
    | .error _ _ => none
  | _ => none

/-- The labelled contexts that the steps of a body make, without those of the scopes in it. -/
def bodyLabels (execution : Execution (Action κ) Opening (Session τ κ)) : List NodeId :=
  (execution.body.ownActions semantics execution.begun).filterMap Action.label?

omit [Tracer τ] in
theorem Session.drive_eq {α : Type} {action : Build τ α} {answer : α} {after : Builder τ}
    (done : action session.builder = .ok answer after) :
    Session.drive action session = .ok answer ⟨after, session.checkpoints⟩ := by
  simp only [Session.drive, done]

theorem Action.apply_event (sound : session.builder.Sound) (e : Event) :
    ∃ after, (event e : Action κ).apply session = .ok () after ∧
      after.builder = e.next session.builder :=
  ⟨_, bind_of_ok (Session.drive_eq (Event.run_eq sound e)), rfl⟩

theorem Opening.enter_eq (sound : session.builder.Sound) (opening : Opening) :
    ∃ begun, opening.enter session = .ok () begun ∧ begun.builder =
      (Event.enter opening.rule opening.invokingState opening.start).next session.builder :=
  ⟨_, bind_of_ok (map_of_ok _ (Session.drive_eq (Builder.enter_eq sound ..))), rfl⟩

theorem Opening.exit_eq (sound : session.builder.Sound) (opening : Opening) (ending : Ending) :
    ∃ after, opening.exit ending session = .ok () after ∧ after.builder =
      if opening.dismissed then session.builder else Event.exit.next session.builder := by
  unfold Opening.exit
  rcases opening.dismissed
  · have exited := map_of_ok (fun _ => ()) (Session.drive_eq (Builder.exit_eq sound))
    cases ending <;> exact ⟨_, (bind_of_ok exited).trans rfl, rfl⟩
  · cases ending <;> exact ⟨_, rfl, rfl⟩

/-- No step of a scoped construction is refused. -/
theorem serves : (semantics (τ := τ) (κ := κ)).Serves fun session =>
    ∃ stack, session.builder.Unstopped stack where
  act action session := fun ⟨stack, unstopped⟩ => by
    cases action with
    | event e =>
      obtain ⟨after, done, next⟩ := Action.apply_event unstopped.sound e
      exact ⟨after, done, next ▸ unstopped.next e⟩
    | note n => exact ⟨_, rfl, stack, unstopped⟩
  enter opening session := fun ⟨stack, unstopped⟩ => by
    obtain ⟨begun, entered, next⟩ := opening.enter_eq unstopped.sound
    exact ⟨begun, entered, _, next ▸ unstopped.enter ..⟩
  exit opening ending session := fun ⟨stack, unstopped⟩ => by
    obtain ⟨after, exited, next⟩ := opening.exit_eq unstopped.sound ending
    refine ⟨after, exited, ?_⟩
    rw [next]
    split
    · exact ⟨stack, unstopped⟩
    · exact unstopped.next .exit
  caught _ _ unstopped := unstopped

namespace Unstopped

/-- An action of a scoped construction changes the top of the stack only, and by its label. -/
theorem act (unstopped : session.builder.Unstopped stack) {action : Action κ}
    (within : action.Within) :
    ∃ after, action.apply session = .ok () after ∧
      after.builder.Unstopped (relabelled (Action.label? (action, session)).toList stack) := by
  have unlabelled {e : Event} (unstopped : (e.next session.builder).Unstopped stack) :
      (e.next session.builder).Unstopped (relabelled [] stack) := by
    rwa [relabelled_nil]
  cases action with
  | note n => exact ⟨_, rfl, (relabelled_nil stack).symm ▸ unstopped⟩
  | event e =>
    obtain ⟨after, done, next⟩ := Action.apply_event unstopped.sound e
    refine ⟨after, done, ?_⟩
    rw [next]
    cases e with
    | enter | exit => cases within
    | alt number =>
      simp only [Action.label?, takeAlt_eq unstopped.sound]
      exact unstopped.takeAlt number
    | consume token => exact unlabelled (unstopped.recorded .terminal (.consume token) token)
    | recover token => exact unlabelled (unstopped.recorded .error (.error token) token)
    | retract => exact unlabelled unstopped.retract

/-- A scoped construction changes the top of the stack only, and by its own labels. -/
theorem run (unstopped : session.builder.Unstopped stack)
    {program : Program (Action κ) Opening} (inScopes : Scoped program) :
    (program.run semantics session).2.builder.Unstopped
      (relabelled ((program.ownActions semantics session).filterMap Action.label?) stack) := by
  induction program generalizing session stack with
  | finish | leave | fail => exact (relabelled_nil stack).symm ▸ unstopped
  | act action rest ih =>
    obtain ⟨after, done, next⟩ := unstopped.act inScopes.1
    rw [Program.run_act done, Program.ownActions_act done]
    have changed := ih next inScopes.2
    rw [← relabelled_append] at changed
    rw [List.filterMap_cons]
    cases label : Action.label? (action, session) <;> rw [label] at changed <;> exact changed
  | attempt body rest ihBody ihRest =>
    rcases ran : body.run semantics session with ⟨ending, ended⟩
    have inBody := ihBody unstopped inScopes.1
    rw [ran] at inBody
    rw [Program.run_attempt ran, Program.ownActions_attempt ran, List.filterMap_append,
      relabelled_append]
    exact ihRest inBody inScopes.2
  | scope opening body rest ihBody ihRest =>
    obtain ⟨armed, ofBody, ofRest⟩ := inScopes
    obtain ⟨begun, entered, next⟩ := opening.enter_eq unstopped.sound
    rcases ran : body.run semantics begun with ⟨ending, ended⟩
    -- The labels of the body are on top of the stack around the scope, and its end takes them off.
    have inBody := ihBody (next ▸ unstopped.enter ..) ofBody
    rw [ran] at inBody
    obtain ⟨after, exited, nextAfter⟩ := opening.exit_eq inBody.sound ending
    rw [armed] at nextAfter
    have left : after.builder.Unstopped stack := nextAfter ▸ inBody.exit.1
    rw [Program.run_scope entered ran exited, Program.ownActions_scope entered ran exited]
    rcases ending.message? with - | message
    · exact ihRest left ofRest
    · exact (relabelled_nil stack).symm ▸ left

end Unstopped

/-- The end of a scope closes the context that the scope has opened, or the labelled one that has
taken its place, which is then on top of the stack. -/
theorem Unstopped.closed {execution : Execution (Action κ) Opening (Session τ κ)}
    {opening : Opening} (unstopped : execution.before.builder.Unstopped stack)
    (valid : execution.Valid semantics) (isScope : execution.block = .scope opening)
    (armed : opening.dismissed = false) (ofBody : Scoped execution.body) :
    execution.after.builder.current = execution.before.builder.current ∧
      execution.after.builder.consumed = execution.ended.builder.consumed ∧
      ∃ opened, Builder.enter opening.rule opening.invokingState opening.start
          execution.before.builder = .ok opened execution.begun.builder ∧
        execution.after.builder.arena.IsContext ((bodyLabels execution).getLastD opened) ∧
        execution.after.builder.arena.stop? ((bodyLabels execution).getLastD opened) =
          execution.ended.builder.consumed.head? := by
  cases valid with
  | attempt ran => cases isScope
  | @scope header body before begun ended after ending entered ran exited =>
    cases isScope
    obtain ⟨_, enteredToo, next⟩ := opening.enter_eq unstopped.sound
    cases entered.symm.trans enteredToo
    have opened : begun.builder.Unstopped (before.builder.arena.nextId :: stack) :=
      next ▸ unstopped.enter ..
    have inBody := opened.run ofBody
    rw [ran] at inBody
    have current : ended.builder.current = some _ := inBody.mirrors.current
    obtain ⟨_, exitedToo, left⟩ := opening.exit_eq inBody.sound ending
    cases exited.symm.trans exitedToo
    rw [armed] at left
    have nextAfter : after.builder = Event.exit.next ended.builder := left
    obtain ⟨below, isContext, stop⟩ := inBody.exit
    dsimp only
    rw [nextAfter]
    refine ⟨below.mirrors.current.trans unstopped.mirrors.current.symm, ?_, ?_⟩
    · simp only [Event.next, current]
    · exact ⟨_, next ▸ Builder.enter_eq unstopped.sound .., isContext, stop⟩

/-- Whenever a scope of a construction has ended, whether its body has come to its end, was left
early or has failed, the current context is the one that was current before the scope. The context
that the scope opened, or the last one that took its place as a labelled alternative in the body of
the scope, has the newest token consumed at that moment as its stop, and none if there is none. -/
theorem closed_by_scope (config : Config) (tracer : τ) (past : List Event)
    {answers : List (Option NodeId)} {builder : Builder τ}
    (done : past.mapM Event.run (start config tracer) = .ok answers builder)
    (program : Program (Action κ) Opening) (inScopes : Scoped program) :
    ∀ execution ∈ program.executions semantics (.start builder),
      ∀ opening, execution.block = .scope opening →
        execution.Valid semantics ∧
        execution.after.builder.current = execution.before.builder.current ∧
        execution.after.builder.consumed = execution.ended.builder.consumed ∧
        ∃ opened, Builder.enter opening.rule opening.invokingState opening.start
            execution.before.builder = .ok opened execution.begun.builder ∧
          execution.after.builder.arena.IsContext
            ((bodyLabels execution).getLastD opened) ∧
          execution.after.builder.arena.stop? ((bodyLabels execution).getLastD opened) =
            execution.ended.builder.consumed.head? := by
  intro execution executed opening isScope
  obtain ⟨_, _, doneToo, reached, -⟩ := (start_sound config tracer).run past
  cases done.symm.trans doneToo
  obtain ⟨initial, unstoppedInitial⟩ := (start_unstopped config tracer).foldl past
  obtain ⟨valid, stack, unstopped⟩ :=
    serves.valid program ⟨initial, reached ▸ unstoppedInitial⟩ execution executed
  obtain ⟨ofBody, ofHeader⟩ := inScopes.of_executed execution executed
  exact ⟨valid, unstopped.closed valid isScope (ofHeader opening isScope) ofBody⟩

/-- A rule with a label and a token, in a rule whose body stops the failure of the inner one and is
then left early. -/
def failureInScope : Program (Action Unit) Opening :=
  .scope ⟨0, none, .ofType 4 0, false⟩
    (.act (.event (.consume (.ofType 4 0))) <|
      .attempt
        (.scope ⟨1, some 7, .ofType 5 1, false⟩
          (.act (.event (.alt 2)) <| .act (.event (.consume (.ofType 5 1))) <| .fail "a") .finish)
        .leave)
    .finish

theorem closed_by_failureInScope :
    ∃ execution ∈ failureInScope.executions semantics (.start (start .default ())),
      execution.ending = .failed "a" ∧ execution.after.builder.current = some ⟨0⟩ ∧
        execution.after.builder.arena.stop? ⟨3⟩ = some (.ofType 5 1) := by
  have first : ((failureInScope.executions semantics (.start (start .default ()))).head?.map
      fun execution => (execution.block, execution.ending)) =
      some (.scope ⟨1, some 7, .ofType 5 1, false⟩, .failed "a") := by decide +kernel
  have around : ((failureInScope.executions semantics (.start (start .default ()))).head?.map
      fun execution => (execution.before.builder.current, bodyLabels execution,
        execution.ended.builder.consumed.head?)) =
      some (some ⟨0⟩, [⟨3⟩], some (.ofType 5 1)) := by decide +kernel
  obtain ⟨execution, isFirst, data⟩ := Option.map_eq_some_iff.mp first
  have executed := List.mem_of_mem_head? isFirst
  rw [isFirst] at around
  simp only [Option.map_some, Option.some.injEq, Prod.mk.injEq] at data around
  obtain ⟨isScope, failed⟩ := data
  obtain ⟨current, labels, newest⟩ := around
  obtain ⟨-, restored, -, opened, -, -, stop⟩ :=
    closed_by_scope .default () [] rfl failureInScope (by decide) execution executed _ isScope
  rw [labels, newest] at stop
  exact ⟨execution, executed, failed, restored.trans current, stop⟩

end Sessions

end Recognizer.Builder
