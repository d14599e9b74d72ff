import Recognizer.Builder.Basic
import Recognizer.Proofs.Tree.Forest
import Recognizer.Proofs.Tree.Outcome

/-!
# Steps of a construction

An event is a computation that could be refused at every edit of the arena that it makes.  This
module says what an event does where nothing is refused: `Event.next` is the builder after it, as
plain changes of the arena, the current context, the root and the consumed tokens, and
`Event.answer` is its answer.

`Sound` is the invariant under which nothing is refused: the arena is a forest, the current
context and the root are contexts of it, and the root has no parent. `Event.run_eq` says that a
sound builder goes on to `Event.next`, and `Sound.next` that it stays sound.
-/

namespace Recognizer.Builder

open Recognizer.Tree (Arena Context Edit LeafKind Node NodeId)

variable {τ : Type}

/-! ## The builder after an event -/

/-- The context that a rule is entered with. -/
def opened (parent : Option NodeId) (invokingState : Option StateId) (rule : RuleIndex)
    (start : Token) : Context :=
  { Context.fresh parent invokingState (some rule) with start := some start }

/-- The context that takes over from another as a labelled alternative. -/
def labelled (generic : Context) (number : UInt32) : Context :=
  { generic with alt := some number, children := [] }

/-- The arena with a new node, listed by its parent if it has one and trees are built. -/
def grow (builder : Builder τ) (parent : Option NodeId) (node : Node) : Arena :=
  match parent, builder.buildsTree with
  | some id, true => (builder.arena.push node).append id builder.arena.nextId
  | _, _ => builder.arena.push node

/-- The arena in which a labelled context has taken the place of `generic` as a last child. -/
def relabel (arena : Arena) (generic : NodeId) (context : Context) (number : UInt32) : Arena :=
  match context.parent with
  | some parent =>
    if (arena.children parent).getLast? = some generic then
      ((arena.push (.context (labelled context number))).dropLast parent).append parent arena.nextId
    else arena.push (.context (labelled context number))
  | none => arena.push (.context (labelled context number))

/-- The consumed tokens after the token of a leaf, if there is one, has been taken back. -/
def unconsumed (consumed : List Token) (token : Option Token) : List Token :=
  if token.isSome ∧ consumed.head? = token then consumed.tail else consumed

/-- The arena with a leaf for a token, if a context is open and trees are built. -/
def sprout (builder : Builder τ) (kind : LeafKind) (token : Token) : Arena :=
  match builder.current, builder.buildsTree with
  | some id, true => (builder.arena.push (.leaf ⟨kind, token, id⟩)).append id builder.arena.nextId
  | _, _ => builder.arena

theorem grow_listed {builder : Builder τ} (builds : builder.buildsTree = true) (id : NodeId)
    (node : Node) :
    builder.grow (some id) node = (builder.arena.push node).append id builder.arena.nextId := by
  simp only [grow, builds]

theorem sprout_listed {builder : Builder τ} (builds : builder.buildsTree = true) {id : NodeId}
    (isCurrent : builder.current = some id) (kind : LeafKind) (token : Token) :
    builder.sprout kind token =
      (builder.arena.push (.leaf ⟨kind, token, id⟩)).append id builder.arena.nextId := by
  simp only [sprout, isCurrent, builds]

variable [Tracer τ]

/-- The builder with a token recorded. -/
def recorded (builder : Builder τ) (kind : LeafKind) (hook : Hook) (token : Token) : Builder τ where
  arena := builder.sprout kind token
  current := builder.current
  root := builder.root
  consumed := token :: builder.consumed
  buildsTree := builder.buildsTree
  tracer := Tracer.observe hook builder.tracer

/-- The builder after an event. -/
def Event.next (builder : Builder τ) : Event → Builder τ
  | enter rule invokingState start =>
    { arena := builder.grow builder.current
        (.context (opened builder.current invokingState rule start))
      current := some builder.arena.nextId
      root := if builder.current.isNone ∧ builder.root.isNone then some builder.arena.nextId
        else builder.root
      consumed := builder.consumed
      buildsTree := builder.buildsTree
      tracer := Tracer.observe (.enter rule start) builder.tracer }
  | exit =>
    match builder.current with
    | none => builder
    | some id =>
      { builder with
        arena :=
          match builder.consumed.head? with
          | some token =>
            builder.arena.modify id (.onContext fun context => { context with stop := some token })
          | none => builder.arena
        current := builder.arena.parent? id
        tracer := Tracer.observe (.exit builder.consumed.head?) builder.tracer }
  | alt number =>
    match builder.current with
    | none => builder
    | some generic =>
      match builder.arena.context? generic with
      | none => builder
      | some context =>
        { builder with
          arena := relabel builder.arena generic context number
          current := some builder.arena.nextId
          root := if builder.root = some generic then some builder.arena.nextId else builder.root
          tracer := Tracer.observe (.alt number) builder.tracer }
  | consume token => builder.recorded .terminal (.consume token) token
  | recover token => builder.recorded .error (.error token) token
  | retract =>
    match builder.current with
    | none => builder
    | some id =>
      { builder with
        arena := builder.arena.dropLast id
        consumed := unconsumed builder.consumed
          ((builder.arena.children id).getLast?.bind builder.arena.token?)
        tracer := Tracer.observe .retract builder.tracer }

/-- The answer of an event. -/
def Event.answer (builder : Builder τ) : Event → Option NodeId
  | enter _ _ _ => some builder.arena.nextId
  | exit => builder.current
  | alt _ => builder.current.map fun _ => builder.arena.nextId
  | consume _ | recover _ =>
    builder.current.bind fun _ => if builder.buildsTree then some builder.arena.nextId else none
  | retract => builder.current.bind fun id => (builder.arena.children id).getLast?

theorem Event.next_alt {builder : Builder τ} {generic : NodeId}
    (isCurrent : builder.current = some generic) {context : Context}
    (found : builder.arena.context? generic = some context) (number : UInt32) :
    (Event.alt number).next builder =
      { builder with
        arena := relabel builder.arena generic context number
        current := some builder.arena.nextId
        root := if builder.root = some generic then some builder.arena.nextId else builder.root
        tracer := Tracer.observe (.alt number) builder.tracer } := by
  simp only [next, isCurrent, found]

/-- Whether trees are built stays as it is. -/
theorem Event.next_buildsTree (builder : Builder τ) (event : Event) :
    (event.next builder).buildsTree = builder.buildsTree := by
  cases event with
  | enter rule invokingState start => rfl
  | exit =>
    unfold Event.next
    rcases builder.current <;> rfl
  | alt number =>
    unfold Event.next
    rcases builder.current with - | generic
    · rfl
    · dsimp only
      rcases builder.arena.context? generic <;> rfl
  | consume token => rfl
  | recover token => rfl
  | retract =>
    unfold Event.next
    rcases builder.current <;> rfl

/-! ## Events of a sound builder -/

/-- The invariant under which no event is refused. -/
structure Sound (builder : Builder τ) : Prop where
  forest : builder.arena.Forest
  current_context : ∀ {id}, builder.current = some id → builder.arena.IsContext id
  root_context : ∀ {id}, builder.root = some id → builder.arena.IsContext id
  root_parentless : ∀ {id}, builder.root = some id → builder.arena.parent? id = none

omit [Tracer τ] in
theorem edit_of_ok {α : Type} {change : Edit α} {answer : α} {arena after : Arena}
    {current root : Option NodeId} {consumed : List Token} {buildsTree : Bool} {tracer : τ}
    (ok : change arena = .ok answer after) :
    edit change ⟨arena, current, root, consumed, buildsTree, tracer⟩ =
      .ok answer ⟨after, current, root, consumed, buildsTree, tracer⟩ := by
  simp only [edit, ok]

/-- A change of the context that was just added. -/
theorem modifyContext_nextId (arena : Arena) (context : Context) (change : Context → Context) :
    Edit.modifyContext arena.nextId change (arena.push (.context context)) =
      .ok () (arena.push (.context (change context))) := by
  have isContext := Arena.isContext_push_nextId arena context
  rw [Edit.modifyContext_eq, if_pos isContext, Arena.modify_push_nextId]
  rfl

theorem addChild_nextId {arena : Arena} (forest : arena.Forest) {parent : NodeId}
    (context : Context) (isContext : arena.IsContext parent) (linked : context.parent = some parent)
    (childless : context.children = []) :
    Edit.addChild parent arena.nextId (arena.push (.context context)) =
      .ok () ((arena.push (.context context)).append parent arena.nextId) := by
  have pushed : (arena.push (.context context)).Forest :=
    forest.push_below childless linked isContext
  exact pushed.addChild_of_linked ((Arena.parent?_push_nextId arena _).trans linked)

theorem enter_eq {builder : Builder τ} (sound : builder.Sound) (rule : RuleIndex)
    (invokingState : Option StateId) (start : Token) :
    enter rule invokingState start builder =
      .ok builder.arena.nextId ((Event.enter rule invokingState start).next builder) := by
  rcases builder with ⟨arena, current, root, consumed, buildsTree, tracer⟩
  have started : Edit.setStart arena.nextId start
      (arena.push (.context (.fresh current invokingState (some rule)))) =
        .ok () (arena.push (.context (opened current invokingState rule start))) :=
    modifyContext_nextId arena _ _
  unfold enter
  refine (bind_of_ok rfl).trans ((bind_of_ok rfl).trans ?_)
  refine (bind_of_ok (edit_of_ok rfl)).trans ((bind_of_ok (edit_of_ok started)).trans ?_)
  rcases current with - | parent
  · refine (bind_of_ok rfl).trans ?_
    rcases root with - | root <;> rfl
  · refine (bind_of_ok rfl).trans ?_
    rcases buildsTree
    · rfl
    · have added := addChild_nextId sound.forest (opened (some parent) invokingState rule start)
        (sound.current_context rfl) rfl rfl
      exact (bind_of_ok (edit_of_ok added)).trans rfl

theorem exit_eq {builder : Builder τ} (sound : builder.Sound) :
    exit builder = .ok (Event.exit.answer builder) (Event.exit.next builder) := by
  rcases builder with ⟨arena, current, root, consumed, buildsTree, tracer⟩
  unfold exit
  refine (bind_of_ok rfl).trans ?_
  rcases current with - | id
  · rfl
  · refine (bind_of_ok rfl).trans ?_
    rcases consumed with - | ⟨token, consumed⟩
    · rfl
    · have stopped : Edit.setStop id token arena = .ok () _ :=
        (Edit.modifyContext_eq _).trans (if_pos (sound.current_context rfl))
      have parent := @Arena.parent?_modify_onContext arena id
        (fun context => { context with stop := some token }) (fun _ => rfl) id
      refine (bind_of_ok (edit_of_ok stopped)).trans ((bind_of_ok rfl).trans ?_)
      refine (bind_of_ok rfl).trans ?_
      dsimp only
      rw [parent]
      rfl

/-- A context is relabelled in three edits of a node that nothing refers to yet. -/
theorem inherit_nextId {arena : Arena} {generic : NodeId} {context : Context}
    (found : arena.context? generic = some context) :
    Edit.inherit arena.nextId generic
        (arena.push (.context (.fresh none none context.rule))) =
      .ok () (arena.push (.context ((Context.fresh none none context.rule).inherit context))) := by
  have isContext : arena.IsContext generic := Option.isSome_iff_exists.mpr ⟨context, found⟩
  have foundStill : (arena.push (.context (.fresh none none context.rule))).context? generic =
      some context := by
    rw [Arena.context?_push, if_neg isContext.ne_nextId]
    exact found
  unfold Edit.inherit
  refine (bind_of_ok (Edit.getContext_of_context? foundStill)).trans ?_
  exact modifyContext_nextId arena _ _

/-- The labelled context takes the place of the generic one, if that is the last child. -/
theorem replaceLast_eq {arena : Arena} (forest : arena.Forest) {parent : NodeId}
    (context : Context) (isContext : arena.IsContext parent) (linked : context.parent = some parent)
    (childless : context.children = []) :
    (∃ last, Edit.removeLastChild parent (arena.push (.context context)) =
        .ok last ((arena.push (.context context)).dropLast parent)) ∧
      Edit.addChild parent arena.nextId ((arena.push (.context context)).dropLast parent) =
        .ok () (((arena.push (.context context)).dropLast parent).append parent arena.nextId) := by
  have pushed : (arena.push (.context context)).Forest :=
    forest.push_below childless linked isContext
  constructor
  · exact ⟨_, Edit.removeLastChild_eq.trans (if_pos (isContext.push _))⟩
  · refine (pushed.dropLast parent).addChild_of_linked ?_
    rw [Arena.parent?_dropLast, Arena.parent?_push_nextId]
    exact linked

/-- The last part of a relabelling, after the arena has been changed. -/
theorem succeed_eq (generic labelled : NodeId) (number : UInt32) (builder : Builder τ) :
    (do
      if (← get).root = some generic then setRoot (some labelled)
      trace (.alt number)
      setCurrent (some labelled)
      return some labelled : Build τ (Option NodeId)) builder =
      .ok (some labelled)
        { builder with
          current := some labelled
          root := if builder.root = some generic then some labelled else builder.root
          tracer := Tracer.observe (.alt number) builder.tracer } := by
  refine (bind_of_ok rfl).trans ?_
  dsimp only
  split <;> rfl

theorem takeAlt_eq {builder : Builder τ} (sound : builder.Sound) (number : UInt32) :
    takeAlt number builder =
      .ok ((Event.alt number).answer builder) ((Event.alt number).next builder) := by
  rcases builder with ⟨arena, current, root, consumed, buildsTree, tracer⟩
  unfold takeAlt
  refine (bind_of_ok rfl).trans ?_
  rcases current with - | generic
  · rfl
  · have isContext : arena.IsContext generic := sound.current_context rfl
    obtain ⟨context, found⟩ := Option.isSome_iff_exists.mp isContext
    have rule : arena.rule? generic = context.rule := by rw [Arena.rule?, found]; rfl
    have link := Arena.parent?_of_context? found
    have linkStill (new : Node) : (arena.push new).parent? generic = context.parent := by
      rw [Arena.parent?_push, if_neg isContext.ne_nextId, link]
    have numbered : Edit.setAlt arena.nextId number
        (arena.push (.context ((Context.fresh none none context.rule).inherit context))) =
          .ok () (arena.push (.context (labelled context number))) :=
      modifyContext_nextId arena _ _
    simp only [Event.next, Event.answer, Option.map_some, found]
    refine (bind_of_ok rfl).trans ?_
    dsimp only
    rw [rule]
    refine (bind_of_ok (edit_of_ok rfl)).trans ?_
    refine (bind_of_ok (edit_of_ok (inherit_nextId found))).trans ?_
    -- The new node is nobody's parent, so the query for the old parent is answered as before.
    refine (bind_of_ok (edit_of_ok numbered)).trans ((bind_of_ok rfl).trans ?_)
    dsimp only
    rw [linkStill]
    unfold relabel
    rcases linked : context.parent with - | parent
    · exact succeed_eq generic arena.nextId number _
    · have isParent := (sound.forest.parent_older (link.trans linked)).2
      refine (bind_of_ok rfl).trans ?_
      dsimp only
      rw [Arena.children_push, if_neg isParent.ne_nextId]
      by_cases last : (arena.children parent).getLast? = some generic
      · obtain ⟨⟨dropped, removed⟩, added⟩ :=
          replaceLast_eq sound.forest (labelled context number) isParent linked rfl
        rw [if_pos last, if_pos last]
        refine (bind_of_ok (map_of_ok _ (edit_of_ok removed))).trans ?_
        refine (bind_of_ok (edit_of_ok added)).trans ?_
        exact succeed_eq generic arena.nextId number _
      · rw [if_neg last, if_neg last]
        exact succeed_eq generic arena.nextId number _

theorem addToken_eq {builder : Builder τ} (sound : builder.Sound) (kind : LeafKind) (hook : Hook)
    (token : Token) :
    (do trace hook; addToken kind token : Build τ (Option NodeId)) builder =
      .ok
        (builder.current.bind fun _ =>
          if builder.buildsTree then some builder.arena.nextId else none)
        (builder.recorded kind hook token) := by
  rcases builder with ⟨arena, current, root, consumed, buildsTree, tracer⟩
  unfold addToken
  refine (bind_of_ok rfl).trans ((bind_of_ok rfl).trans ?_)
  refine (bind_of_ok rfl).trans ((bind_of_ok rfl).trans ?_)
  rcases current with - | id
  · rfl
  · rcases buildsTree
    · rfl
    · have added : Edit.addLeaf id kind token arena = .ok arena.nextId _ :=
        (Edit.addLeaf_eq kind token).trans (if_pos (sound.current_context rfl))
      exact map_of_ok some (edit_of_ok added)

theorem retract_eq {builder : Builder τ} (sound : builder.Sound) :
    retract builder = .ok (Event.retract.answer builder) (Event.retract.next builder) := by
  rcases builder with ⟨arena, current, root, consumed, buildsTree, tracer⟩
  unfold retract
  refine (bind_of_ok rfl).trans ?_
  rcases current with - | id
  · rfl
  · have removed : Edit.removeLastChild id arena = .ok (arena.children id).getLast? _ :=
      Edit.removeLastChild_eq.trans (if_pos (sound.current_context rfl))
    refine (bind_of_ok rfl).trans ((bind_of_ok (edit_of_ok removed)).trans ?_)
    simp only [Event.next, Event.answer, Option.bind_some]
    rcases last : (arena.children id).getLast? with - | child
    · rfl
    · have kept : (arena.dropLast id).token? child = arena.token? child :=
        Arena.token?_modify_onContext arena id _ child
      refine (bind_of_ok rfl).trans ((bind_of_ok rfl).trans ?_)
      simp only [kept, unconsumed, Option.bind_some, pure, EStateM.pure]
      split <;> rfl

/-- Nothing is refused to a sound builder. -/
theorem Event.run_eq {builder : Builder τ} (sound : builder.Sound) (event : Event) :
    event.run builder = .ok (event.answer builder) (event.next builder) := by
  cases event with
  | enter rule invokingState start => exact map_of_ok some (enter_eq sound rule invokingState start)
  | exit => exact exit_eq sound
  | alt number => exact takeAlt_eq sound number
  | consume token => exact addToken_eq sound .terminal (.consume token) token
  | recover token => exact addToken_eq sound .error (.error token) token
  | retract => exact retract_eq sound

end Recognizer.Builder
