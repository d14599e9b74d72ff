import Recognizer.Proofs.Builder.Run
import Recognizer.Proofs.Tree.Lineage

/-!
# The arena as a stack

A construction keeps no stack: the open activations are the current context and what its parent
links lead to.  Here it is shown to be one.  `StackStep` is an explicit stack of contexts that sees
the events and their answers, and `Mirrors` says that a builder stands for a stack.  Links of
contexts that exist are never written again, so that every event moves both alike (`Mirrors.step`).

The root is decided by the stacks that have been: it is the bottom of the first one that was not
empty, as that was before it was empty again (`baseOf`).  `Foresees` follows it through a run.
-/

namespace Recognizer.Builder

open Recognizer.Tree (Arena Context Follows LeafKind Node NodeId)

/-! ## An explicit stack -/

/-- The stack of open contexts, innermost first, before and after an event with its answer. -/
inductive StackStep : List NodeId → Event → Option NodeId → List NodeId → Prop
  | enter (stack : List NodeId) (id : NodeId) (rule : RuleIndex) (invokingState : Option StateId)
      (start : Token) : StackStep stack (.enter rule invokingState start) (some id) (id :: stack)
  | exit (id : NodeId) (below : List NodeId) : StackStep (id :: below) .exit (some id) below
  | exitEmpty : StackStep [] .exit none []
  | alt (id labelled : NodeId) (below : List NodeId) (number : UInt32) :
      StackStep (id :: below) (.alt number) (some labelled) (labelled :: below)
  | altEmpty (number : UInt32) : StackStep [] (.alt number) none []
  | consume (stack : List NodeId) (token : Token) (answer : Option NodeId) :
      StackStep stack (.consume token) answer stack
  | recover (stack : List NodeId) (token : Token) (answer : Option NodeId) :
      StackStep stack (.recover token) answer stack
  | retract (stack : List NodeId) (answer : Option NodeId) : StackStep stack .retract answer stack

/-- The stacks after each of a sequence of events, given the first one. -/
inductive StackRun :
    List NodeId → List Event → List (Option NodeId) → List (List NodeId) → Prop
  | nil (stack : List NodeId) : StackRun stack [] [] []
  | cons {stack next : List NodeId} {event : Event} {answer : Option NodeId} {events : List Event}
      {answers : List (Option NodeId)} {history : List (List NodeId)}
      (step : StackStep stack event answer next) (run : StackRun next events answers history) :
      StackRun stack (event :: events) (answer :: answers) (next :: history)

/-- The bottom of the first stack that is not empty, as it is before the stack is empty again. -/
def baseOf (history : List (List NodeId)) : Option NodeId :=
  ((history.dropWhile List.isEmpty).takeWhile fun stack => !stack.isEmpty).getLast?.bind
    List.getLast?

theorem baseOf_singleton {stack : List NodeId} (isOpen : stack ≠ []) :
    baseOf [stack] = stack.getLast? := by
  simp [baseOf, isOpen]

theorem baseOf_closed {stack : List NodeId} (isOpen : stack ≠ []) (history : List (List NodeId)) :
    baseOf (stack :: [] :: history) = stack.getLast? := by
  simp [baseOf, isOpen]

/-- A stack that is followed by another one that is not empty does not decide the base. -/
theorem baseOf_open {stack next : List NodeId} (isOpen : stack ≠ []) (goesOn : next ≠ [])
    (history : List (List NodeId)) :
    baseOf (stack :: next :: history) = baseOf (next :: history) := by
  simp [baseOf, isOpen, goesOn, List.getLast?_cons_cons]

/-! ## Builders that stand for a stack -/

section Paths

variable {arena after : Arena} {stack : List NodeId} {id : NodeId}

/-- The contexts of a stack are linked, each to the one below it, and the last to none. -/
structure OpenPath (arena : Arena) (stack : List NodeId) : Prop where
  isContext : ∀ id ∈ stack, arena.IsContext id
  follows : Follows arena.parent? stack

theorem OpenPath.keeps (path : OpenPath arena stack) (keeps : arena.Keeps after) :
    OpenPath after stack := by
  refine ⟨fun id member => keeps.isContext (path.isContext id member), ?_⟩
  obtain ⟨isContext, follows⟩ := path
  induction stack with
  | nil => trivial
  | cons id below ih =>
    obtain ⟨here, belowContexts⟩ := List.forall_mem_cons.mp isContext
    exact ⟨(keeps.parent? here).trans follows.1, ih belowContexts follows.2⟩

theorem OpenPath.push (path : OpenPath arena stack) (isContext : arena.IsContext id)
    (linked : arena.parent? id = stack.head?) : OpenPath arena (id :: stack) :=
  ⟨List.forall_mem_cons.mpr ⟨isContext, path.isContext⟩, linked, path.follows⟩

theorem OpenPath.pop (path : OpenPath arena (id :: stack)) : OpenPath arena stack :=
  ⟨(List.forall_mem_cons.mp path.isContext).2, path.follows.2⟩

end Paths

variable {τ : Type} {builder : Builder τ} {stack : List NodeId}

/-- The current context is the top of the stack, and parent links lead down the stack. -/
structure Mirrors (builder : Builder τ) (stack : List NodeId) : Prop where
  current : builder.current = stack.head?
  path : OpenPath builder.arena stack

theorem start_mirrors (config : Config) (tracer : τ) : (start config tracer).Mirrors [] :=
  ⟨rfl, by simp, trivial⟩

theorem Mirrors.eq_nil (mirrors : builder.Mirrors stack) (closed : builder.current = none) :
    stack = [] :=
  List.head?_eq_none_iff.mp (mirrors.current.symm.trans closed)

theorem Mirrors.eq_cons (mirrors : builder.Mirrors stack) {id : NodeId}
    (isCurrent : builder.current = some id) : ∃ below, stack = id :: below :=
  List.head?_eq_some_iff.mp (mirrors.current.symm.trans isCurrent)

theorem Sound.acyclic_parents (sound : builder.Sound) :
    Tree.Acyclic builder.arena.HasParent :=
  Tree.acyclic_iff_cycleFree.mpr sound.forest.endsAbove

theorem Mirrors.nodup (mirrors : builder.Mirrors stack) (sound : builder.Sound) : stack.Nodup :=
  Arena.nodup_of_follows sound.acyclic_parents mirrors.path.follows

theorem Mirrors.keeps (mirrors : builder.Mirrors stack) {after : Builder τ}
    (keeps : builder.arena.Keeps after.arena) (current : after.current = builder.current) :
    after.Mirrors stack :=
  ⟨current.trans mirrors.current, mirrors.path.keeps keeps⟩

/-- A context that is added and listed is a context with the parent that it was made with. -/
theorem new_context {arena after : Arena} (context : Context)
    (keeps : (arena.push (.context context)).Keeps after) :
    after.IsContext arena.nextId ∧ after.parent? arena.nextId = context.parent := by
  have pushed := Arena.isContext_push_nextId arena context
  exact ⟨keeps.isContext pushed, (keeps.parent? pushed).trans (Arena.parent?_push_nextId arena _)⟩

variable [Tracer τ]

theorem Mirrors.enter_step (mirrors : builder.Mirrors stack) (rule : RuleIndex)
    (invokingState : Option StateId) (start : Token) :
    ((Event.enter rule invokingState start).next builder).Mirrors
      (builder.arena.nextId :: stack) := by
  obtain ⟨isContext, linked⟩ := new_context (opened builder.current invokingState rule start)
    (builder.grow_keeps_push builder.current _)
  refine ⟨rfl, (mirrors.path.keeps (builder.grow_keeps _ _)).push isContext ?_⟩
  exact linked.trans mirrors.current

theorem Mirrors.exit_step (mirrors : builder.Mirrors stack) :
    (Event.exit.next builder).Mirrors stack.tail := by
  unfold Event.next
  rcases isCurrent : builder.current with - | id
  · have empty := mirrors.eq_nil isCurrent
    subst empty
    exact mirrors
  · obtain ⟨below, rfl⟩ := mirrors.eq_cons isCurrent
    refine ⟨mirrors.path.follows.1, mirrors.path.pop.keeps ?_⟩
    dsimp only
    split
    · exact .modify_onContext _ _ fun _ => rfl
    · exact .refl _

theorem Mirrors.alt_step (mirrors : builder.Mirrors stack) {generic : NodeId}
    {below : List NodeId} (top : stack = generic :: below) (number : UInt32) :
    ((Event.alt number).next builder).Mirrors (builder.arena.nextId :: below) := by
  subst top
  have isCurrent : builder.current = some generic := mirrors.current
  have isContext := mirrors.path.isContext generic List.mem_cons_self
  obtain ⟨context, found⟩ := Option.isSome_iff_exists.mp isContext
  unfold Event.next
  simp only [isCurrent, found]
  obtain ⟨isContext, linked⟩ := new_context (labelled context number)
    (relabel_keeps_push builder.arena generic context number)
  refine ⟨rfl, (mirrors.path.pop.keeps (relabel_keeps ..)).push isContext ?_⟩
  have parent : context.parent = below.head? :=
    (Arena.parent?_of_context? found).symm.trans mirrors.path.follows.1
  exact linked.trans parent

/-- An event and its answer move the stack that a builder stands for. -/
theorem Mirrors.step (mirrors : builder.Mirrors stack) (event : Event) :
    ∃ next, StackStep stack event (event.answer builder) next ∧
      (event.next builder).Mirrors next := by
  cases event with
  | enter rule invokingState start =>
    exact ⟨_, .enter stack _ rule invokingState start, mirrors.enter_step rule invokingState start⟩
  | exit =>
    refine ⟨stack.tail, ?_, mirrors.exit_step⟩
    unfold Event.answer
    rw [mirrors.current]
    rcases stack with - | ⟨id, below⟩
    · exact .exitEmpty
    · exact .exit id below
  | alt number =>
    unfold Event.answer
    rcases isCurrent : builder.current with - | generic
    · have empty := mirrors.eq_nil isCurrent
      subst empty
      refine ⟨[], .altEmpty number, ?_⟩
      unfold Event.next
      rw [isCurrent]
      exact mirrors
    · obtain ⟨below, rfl⟩ := mirrors.eq_cons isCurrent
      exact ⟨_, .alt generic builder.arena.nextId below number, mirrors.alt_step rfl number⟩
  | consume token =>
    exact ⟨stack, .consume stack token _, mirrors.keeps (builder.sprout_keeps .terminal token) rfl⟩
  | recover token =>
    exact ⟨stack, .recover stack token _, mirrors.keeps (builder.sprout_keeps .error token) rfl⟩
  | retract =>
    refine ⟨stack, .retract stack _, ?_⟩
    unfold Event.next
    rcases isCurrent : builder.current with - | id
    · exact mirrors
    · exact mirrors.keeps (.dropLast _ id) isCurrent.symm

/-! ## The root -/

theorem root_exit : (Event.exit.next builder).root = builder.root := by
  unfold Event.next
  rcases builder.current <;> rfl

theorem root_retract : (Event.retract.next builder).root = builder.root := by
  unfold Event.next
  rcases builder.current <;> rfl

theorem root_alt (sound : builder.Sound) {generic : NodeId}
    (isCurrent : builder.current = some generic) (number : UInt32) :
    ((Event.alt number).next builder).root =
      if builder.root = some generic then some builder.arena.nextId else builder.root := by
  have isContext := sound.current_context isCurrent
  obtain ⟨context, found⟩ := Option.isSome_iff_exists.mp isContext
  rw [Event.next_alt isCurrent found]

theorem root_alt_closed (closed : builder.current = none) (number : UInt32) :
    ((Event.alt number).next builder).root = builder.root := by
  simp only [Event.next, closed]

theorem root_enter_open {id : NodeId} (isCurrent : builder.current = some id) (rule : RuleIndex)
    (invokingState : Option StateId) (start : Token) :
    ((Event.enter rule invokingState start).next builder).root = builder.root := by
  simp [Event.next, isCurrent]

/-- What the stacks to come make of the root: nothing was open yet, the first activation still is
open, or it is closed and the root is on no stack any more. -/
inductive Foresees (builder : Builder τ) (stack : List NodeId) :
    (List (List NodeId) → Option NodeId) → Prop
  | unopened (rootless : builder.root = none) (empty : stack = []) : Foresees builder stack baseOf
  | first (bottom : builder.root = stack.getLast?) (isOpen : stack ≠ []) :
      Foresees builder stack fun history => baseOf (stack :: history)
  | closed (id : NodeId) (isRoot : builder.root = some id) (absent : id ∉ stack) :
      Foresees builder stack fun _ => some id

omit [Tracer τ] in
theorem Foresees.root {rootOf : List (List NodeId) → Option NodeId}
    (foresees : builder.Foresees stack rootOf) : builder.root = rootOf [] := by
  cases foresees with
  | unopened rootless empty => exact rootless
  | first bottom isOpen => exact bottom.trans (baseOf_singleton isOpen).symm
  | closed id isRoot absent => exact isRoot

section Steps

variable {event : Event} {answer : Option NodeId} {next : List NodeId}

/-- Before anything is open, an event leaves it so, or it opens the first activation. -/
theorem Foresees.step_unopened (mirrors : builder.Mirrors []) (rootless : builder.root = none)
    (step : StackStep [] event answer next) (answered : answer = event.answer builder) :
    ∃ rootOf, (event.next builder).Foresees next rootOf ∧
      ∀ history, rootOf history = baseOf (next :: history) := by
  have closed : builder.current = none := mirrors.current
  cases step with
  | enter _ id rule invokingState start =>
    cases answered
    refine ⟨_, .first ?_ (List.cons_ne_nil _ _), fun _ => rfl⟩
    simp [Event.next, closed, rootless]
  | exitEmpty => exact ⟨_, .unopened (root_exit.trans rootless) rfl, fun _ => rfl⟩
  | altEmpty number =>
    exact ⟨_, .unopened ((root_alt_closed closed number).trans rootless) rfl, fun _ => rfl⟩
  | consume _ token => exact ⟨_, .unopened rootless rfl, fun _ => rfl⟩
  | recover _ token => exact ⟨_, .unopened rootless rfl, fun _ => rfl⟩
  | retract => exact ⟨_, .unopened (root_retract.trans rootless) rfl, fun _ => rfl⟩

/-- While the first activation is open, the root is the bottom of the stack, and it stays that when
the activation is closed. -/
theorem Mirrors.root_next (mirrors : builder.Mirrors stack) (sound : builder.Sound)
    (bottom : builder.root = stack.getLast?) (isOpen : stack ≠ [])
    (step : StackStep stack event answer next) (answered : answer = event.answer builder) :
    (event.next builder).root = if next = [] then stack.getLast? else next.getLast? := by
  cases step with
  | enter _ id rule invokingState start =>
    obtain ⟨top, below, rfl⟩ := List.exists_cons_of_ne_nil isOpen
    rw [root_enter_open mirrors.current, bottom, if_neg (List.cons_ne_nil _ _),
      List.getLast?_cons_cons]
  | exit id =>
    rw [root_exit, bottom]
    rcases next with - | ⟨outer, outers⟩
    · rfl
    · rw [if_neg (List.cons_ne_nil _ _), List.getLast?_cons_cons]
  | exitEmpty => exact absurd rfl isOpen
  | alt id labelled below number =>
    have isCurrent : builder.current = some id := mirrors.current
    rw [Event.answer, isCurrent] at answered
    cases answered
    rw [root_alt sound isCurrent, if_neg (List.cons_ne_nil _ _)]
    rcases below with - | ⟨outer, outers⟩
    · exact if_pos bottom
    · -- The root has no parent, unlike the context that is relabelled.
      have inner : builder.root ≠ some id := by
        intro isRoot
        have linked : builder.arena.parent? id = some outer := mirrors.path.follows.1
        rw [sound.root_parentless isRoot] at linked
        cases linked
      rw [if_neg inner, bottom, List.getLast?_cons_cons, List.getLast?_cons_cons]
  | altEmpty number => exact absurd rfl isOpen
  | consume _ token => exact bottom.trans (if_neg isOpen).symm
  | recover _ token => exact bottom.trans (if_neg isOpen).symm
  | retract => exact (root_retract.trans bottom).trans (if_neg isOpen).symm

/-- The first activation stays open with its bottom as the root, or it is closed. -/
theorem Foresees.step_first (sound : builder.Sound) (mirrors : builder.Mirrors stack)
    (bottom : builder.root = stack.getLast?) (isOpen : stack ≠ [])
    (step : StackStep stack event answer next) (answered : answer = event.answer builder) :
    ∃ rootOf, (event.next builder).Foresees next rootOf ∧
      ∀ history, rootOf history = baseOf (stack :: next :: history) := by
  have root := mirrors.root_next sound bottom isOpen step answered
  by_cases shut : next = []
  · subst shut
    rw [if_pos rfl, List.getLast?_eq_some_getLast isOpen] at root
    refine ⟨_, .closed _ root List.not_mem_nil, fun history => ?_⟩
    rw [baseOf_closed isOpen, List.getLast?_eq_some_getLast isOpen]
  · rw [if_neg shut] at root
    exact ⟨_, .first root shut, fun history => (baseOf_open isOpen shut history).symm⟩

/-- The root stays what it is once the first activation is closed. -/
theorem Foresees.step_closed (sound : builder.Sound) (mirrors : builder.Mirrors stack) {id : NodeId}
    (isRoot : builder.root = some id) (absent : id ∉ stack)
    (step : StackStep stack event answer next) (answered : answer = event.answer builder) :
    (event.next builder).Foresees next fun _ => some id := by
  have old : id ≠ builder.arena.nextId := (sound.root_context isRoot).ne_nextId
  cases step with
  | enter _ new rule invokingState start =>
    cases answered
    refine .closed id ?_ (List.not_mem_cons_of_ne_of_not_mem old absent)
    simp [Event.next, isRoot]
  | exit top below =>
    exact .closed id (root_exit.trans isRoot) (List.not_mem_of_not_mem_cons absent)
  | exitEmpty => exact .closed id (root_exit.trans isRoot) absent
  | alt generic labelled below number =>
    have isCurrent : builder.current = some generic := mirrors.current
    rw [Event.answer, isCurrent] at answered
    cases answered
    have other : id ≠ generic := List.ne_of_not_mem_cons absent
    have absentBelow : id ∉ below := List.not_mem_of_not_mem_cons absent
    refine .closed id ?_ (List.not_mem_cons_of_ne_of_not_mem old absentBelow)
    have notTop : builder.root ≠ some generic := fun isTop =>
      other (Option.some.inj (isRoot.symm.trans isTop))
    rw [root_alt sound isCurrent, if_neg notTop, isRoot]
  | altEmpty number =>
    exact .closed id ((root_alt_closed mirrors.current number).trans isRoot) absent
  | consume _ token => exact .closed id isRoot absent
  | recover _ token => exact .closed id isRoot absent
  | retract => exact .closed id (root_retract.trans isRoot) absent

theorem Foresees.step (sound : builder.Sound) (mirrors : builder.Mirrors stack)
    {rootOf : List (List NodeId) → Option NodeId} (foresees : builder.Foresees stack rootOf)
    (step : StackStep stack event (event.answer builder) next) :
    ∃ rootAfter, (event.next builder).Foresees next rootAfter ∧
      ∀ history, rootAfter history = rootOf (next :: history) := by
  cases foresees with
  | unopened rootless empty =>
    subst empty
    exact step_unopened mirrors rootless step rfl
  | first bottom isOpen => exact step_first sound mirrors bottom isOpen step rfl
  | closed id isRoot absent =>
    exact ⟨_, step_closed sound mirrors isRoot absent step rfl, fun _ => rfl⟩

end Steps

/-! ## Runs -/

/-- A run of a builder that stands for a stack moves the stack along. -/
theorem Mirrors.run (mirrors : builder.Mirrors stack) (sound : builder.Sound)
    {rootOf : List (List NodeId) → Option NodeId} (foresees : builder.Foresees stack rootOf)
    (events : List Event) :
    ∃ answers after history, events.mapM Event.run builder = .ok answers after ∧
      StackRun stack events answers history ∧ after.Sound ∧
      after.Mirrors (history.getLastD stack) ∧ after.root = rootOf history := by
  induction events generalizing builder stack rootOf with
  | nil => exact ⟨[], builder, [], rfl, .nil stack, sound, mirrors, foresees.root⟩
  | cons event events ih =>
    obtain ⟨next, step, mirrorsNext⟩ := mirrors.step event
    obtain ⟨rootAfter, foreseesNext, agrees⟩ := foresees.step sound mirrors step
    obtain ⟨answers, after, history, done, run, soundAfter, mirrorsAfter, root⟩ :=
      ih mirrorsNext (sound.next event) foreseesNext
    refine ⟨event.answer builder :: answers, after, next :: history, sound.mapM_cons done,
      .cons step run, soundAfter, ?_, root.trans (agrees history)⟩
    rw [List.getLastD_cons]
    exact mirrorsAfter

omit [Tracer τ] in
/-- The lineage of the current context is the stack, from the top to the bottom. -/
theorem Mirrors.lineage? (mirrors : builder.Mirrors stack) (sound : builder.Sound) {id : NodeId}
    (isCurrent : builder.current = some id) :
    builder.arena.lineage? id = some stack := by
  have top : stack.head? = some id := mirrors.current.symm.trans isCurrent
  exact (Arena.lineage?_eq_some_iff sound.acyclic_parents).mpr ⟨top, mirrors.path.follows⟩

/-- A construction is an explicit stack of contexts. In a run, which is never refused, the stack
moves by the answers of the events: a context that is entered goes on top of it, the top is what an
exit answers and takes off, and a labelled context takes the place of the top. The current context
is the top of the stack, parent links lead from it down the stack, and the root is the bottom of the
first stack that was not empty, as it was last. Since every beginning of a run is a run, this holds
after each event. -/
theorem run_refines_stack (config : Config) (tracer : τ) (events : List Event) :
    ∃ answers after history, events.mapM Event.run (start config tracer) = .ok answers after ∧
      StackRun [] events answers history ∧
      after.current = (history.getLastD []).head? ∧
      (∀ id, after.current = some id → after.arena.lineage? id = some (history.getLastD []) ∧
        ∃ depth, after.arena.depth? id = some depth ∧ depth + 1 = (history.getLastD []).length) ∧
      after.root = baseOf history := by
  have mirrors : (start config tracer).Mirrors [] := ⟨rfl, by simp, trivial⟩
  have sound := start_sound config tracer
  obtain ⟨answers, after, history, done, run, soundAfter, mirrorsAfter, root⟩ :=
    mirrors.run sound (.unopened rfl rfl) events
  refine ⟨answers, after, history, done, run, mirrorsAfter.current, fun id isCurrent => ?_, root⟩
  have lineage := mirrorsAfter.lineage? soundAfter isCurrent
  obtain ⟨below, isStack⟩ := mirrorsAfter.eq_cons isCurrent
  refine ⟨lineage, below.length, ?_, ?_⟩
  · rw [Arena.depth?, lineage, isStack]
    rfl
  · rw [isStack]
    rfl

end Recognizer.Builder
