import Recognizer.Proofs.Builder.Stack
import Recognizer.Proofs.Trace.Lines
import Recognizer.Proofs.Tree.Growth

/-!
# The log of a construction

A log keeps a stack of rule names of its own.  It is told of the events only by hooks, some of which
are left out when nothing is open, and it has a fallback for an activation that was never begun.

`Narration` is the log as it is meant to be: each activation has a heading, which is its name and
the level at which it was begun, and `Narration.tell` adds the lines of an event with no fallback.
It says for itself what a rule is called (`called`) and how far a line is moved in (`atLevel`), and
the log is shown to do the same (`activationName_eq_called`, `indented_eq_atLevel`).

`Narrated` says that a log is that of a narration and that the headings are those of the open
contexts.  Every event keeps it so (`Narrated.next`), whence `run_narrated`.
-/

namespace Recognizer

open Recognizer.Tree (Arena Context Follows Node NodeId)

/-! ## Narrations -/

namespace TraceLog

/-- The name of a rule, or `rule_` and its index if the rule has none. -/
def called (names : RuleNames) (rule : RuleIndex) : String :=
  match names rule with
  | some name => name
  | none => "rule_" ++ Text.uint32 rule

/-- A line with two spaces before it for each level. -/
def atLevel (level : Nat) (body : String) : String :=
  String.ofList (List.replicate (2 * level) ' ') ++ body

/-- The line at the beginning of an activation, which is repeated at its end. -/
structure Heading where
  /-- The number of activations around this one. -/
  level : Nat
  name : String
  deriving DecidableEq, Repr

/-- A line of a heading, with a word before the name and the position of a token behind it. -/
def Heading.line (heading : Heading) (config : Config) (word : String) (token : Option Token) :
    String :=
  atLevel heading.level <|
    word ++ config.highlight.paint .rule heading.name ++
      positionText config.verbosity config.highlight token

/-- The headings of the open activations, innermost first, and the lines up to now. -/
structure Narration where
  headings : List Heading
  lines : List String
  deriving DecidableEq, Repr

namespace Narration

/-- Nothing is open and nothing has been told. -/
def silent : Narration := ⟨[], []⟩

/-- The heading of an activation that is begun now. -/
def heading (narration : Narration) (names : RuleNames) (rule : RuleIndex) : Heading :=
  ⟨narration.headings.length, called names rule⟩

/-- A line at the level of the activations that are open. -/
def line (narration : Narration) (body : String) : String :=
  atLevel narration.headings.length body

/-- The headings after an event. -/
def headingsAfter (narration : Narration) (names : RuleNames) : Builder.Event → List Heading
  | .enter rule _ _ => narration.heading names rule :: narration.headings
  | .exit => narration.headings.tail
  | .alt _ | .consume _ | .recover _ | .retract => narration.headings

/-- The lines of an event. The newest token is the one that was consumed last before it. -/
def linesOf (narration : Narration) (names : RuleNames) (config : Config)
    (newest : Option Token) : Builder.Event → List String
  | .enter rule _ start => [(narration.heading names rule).line config "enter " (some start)]
  | .exit =>
    match narration.headings with
    | [] => []
    | heading :: _ => [heading.line config "exit " newest]
  | .alt number =>
    match narration.headings with
    | [] => []
    | heading :: _ =>
      [narration.line <|
        "alt " ++ config.highlight.paint .rule (heading.name ++ ":" ++ Text.uint32 number)]
  | .consume token =>
    match config.verbosity with
    | .brief => []
    | .verbose | .full =>
      [narration.line ("match " ++ tokenText config.verbosity config.highlight token)]
  | .recover token =>
    [narration.line <|
      config.highlight.paint .error "error" ++ " " ++
        tokenText config.verbosity config.highlight token]
  | .retract =>
    match narration.headings with
    | [] => []
    | _ :: _ => [narration.line (config.highlight.paint .dim "retract")]

/-- The narration after an event. -/
def tell (narration : Narration) (names : RuleNames) (config : Config) (newest : Option Token)
    (event : Builder.Event) : Narration :=
  ⟨narration.headingsAfter names event,
    narration.lines ++ narration.linesOf names config newest event⟩

/-- Carry out an event and tell it. -/
def follow (names : RuleNames) (config : Config) (narration : Narration) (event : Builder.Event) :
    Build TraceLog Narration := do
  let newest := (← get).consumed.head?
  let _ ← event.run
  return narration.tell names config newest event

/-- The log of a narration. -/
def log (narration : Narration) (names : RuleNames) (config : Config) : TraceLog :=
  ⟨names, config.verbosity, config.highlight, narration.lines.toArray,
    narration.headings.map Heading.name⟩

/-- The level of each heading is the number of those around it. -/
def Leveled : List Heading → Prop
  | [] => True
  | heading :: outer => heading.level = outer.length ∧ Leveled outer

end Narration

end TraceLog

/-- Nothing can be ended, labelled or taken back while nothing is open. -/
def Builder.Event.Inner : Builder.Event → Prop
  | .exit | .alt _ | .retract => True
  | .enter _ _ _ | .consume _ | .recover _ => False

/-! ## Hooks -/

namespace TraceLog

section Hooks

variable {narration : Narration} {names : RuleNames} {config : Config} {newest : Option Token}
  {heading : Heading} {outer : List Heading}

theorem activationName_eq_called (names : RuleNames) (rule : RuleIndex) :
    activationName names rule = called names rule := by
  unfold activationName called
  rcases names rule with - | name <;> rfl

theorem indented_eq_atLevel (level : Nat) (body : String) :
    indented level body = atLevel level body := by
  rw [indented, atLevel, ← toList_indentation, String.ofList_toList]

theorem addLine_log (narration : Narration) (names : RuleNames) (config : Config) (body : String) :
    (narration.log names config).addLine body =
      (Narration.mk narration.headings (narration.lines ++ [narration.line body])).log names
        config := by
  simp [addLine, Narration.log, Narration.line, indented_eq_atLevel]

theorem observe_enter (rule : RuleIndex) (invokingState : Option StateId) (start : Token) :
    observe (.enter rule start) (narration.log names config) =
      (narration.tell names config newest (.enter rule invokingState start)).log names config := by
  unfold observe
  dsimp only
  rw [addLine_log, Narration.log, activationName_eq_called]
  rfl

/-- The line that ends an activation stands at the level of its heading, which is taken off before
the line is added. -/
theorem observe_exit (isOpen : narration.headings = heading :: outer)
    (level : heading.level = outer.length) :
    observe (.exit newest) (narration.log names config) =
      (narration.tell names config newest .exit).log names config := by
  rcases narration with ⟨headings, lines⟩
  subst isOpen
  have added := addLine_log ⟨outer, lines⟩ names config
    ("exit " ++ config.highlight.paint .rule heading.name ++
      positionText config.verbosity config.highlight newest)
  refine added.trans ?_
  simp only [Narration.tell, Narration.headingsAfter, Narration.linesOf, Narration.line,
    Heading.line, List.tail_cons, level]

theorem observe_alt (isOpen : narration.headings = heading :: outer) (number : UInt32) :
    observe (.alt number) (narration.log names config) =
      (narration.tell names config newest (.alt number)).log names config := by
  rcases narration with ⟨headings, lines⟩
  subst isOpen
  exact addLine_log _ names config _

theorem observe_consume (token : Token) :
    observe (.consume token) (narration.log names config) =
      (narration.tell names config newest (.consume token)).log names config := by
  rcases config with ⟨buildsTree, verbosity, highlight⟩
  cases verbosity with
  | brief =>
    simp [observe, Narration.log, Narration.tell, Narration.linesOf, Narration.headingsAfter]
  | verbose | full => exact addLine_log narration names _ _

theorem observe_recover (token : Token) :
    observe (.error token) (narration.log names config) =
      (narration.tell names config newest (.recover token)).log names config :=
  addLine_log narration names config _

theorem observe_retract (isOpen : narration.headings = heading :: outer) :
    observe .retract (narration.log names config) =
      (narration.tell names config newest .retract).log names config := by
  rcases narration with ⟨headings, lines⟩
  subst isOpen
  exact addLine_log _ names config _

theorem tell_closed {event : Builder.Event} (inner : event.Inner)
    (closed : narration.headings = []) :
    narration.tell names config newest event = narration := by
  rcases narration with ⟨headings, lines⟩
  cases closed
  cases event with
  | exit | alt | retract => simp [Narration.tell, Narration.headingsAfter, Narration.linesOf]
  | enter | consume | recover => cases inner

end Hooks

end TraceLog

namespace Builder

open TraceLog (Heading Narration called)

/-! ## Contexts of activations -/

theorem Event.Inner.next_closed {τ : Type} [Tracer τ] {builder : Builder τ} {event : Event}
    (inner : event.Inner) (closed : builder.current = none) : event.next builder = builder := by
  cases event with
  | exit | alt | retract => simp only [Event.next, closed]
  | enter | consume | recover => cases inner

/-- A context keeps its rule, whatever the event. -/
theorem Event.rule?_next {τ : Type} [Tracer τ] (builder : Builder τ) (event : Event) {id : NodeId}
    {rule : RuleIndex} (found : builder.arena.rule? id = some rule) :
    (event.next builder).arena.rule? id = some rule := by
  have pushed (node : Node) : (builder.arena.push node).rule? id = some rule :=
    (Arena.Extends.push _ node).rule? found
  cases event with
  | enter rule invokingState start =>
    exact ((builder.grow_relisted _ _).rule? id).trans (pushed _)
  | exit =>
    unfold Event.next
    rcases builder.current with - | current
    · exact found
    · dsimp only
      split
      · refine (Arena.Extends.modify _ _ ?_).rule? found
        exact Node.origin_onContext fun _ => rfl
      · exact found
  | alt number =>
    unfold Event.next
    rcases builder.current with - | generic
    · exact found
    · dsimp only
      rcases builder.arena.context? generic with - | context
      · exact found
      · exact ((relabel_relisted _ _ _ _).rule? id).trans (pushed _)
  | consume token => exact ((builder.sprout_relisted .terminal token).rule? id).trans found
  | recover token => exact ((builder.sprout_relisted .error token).rule? id).trans found
  | retract =>
    unfold Event.next
    rcases builder.current with - | current
    · exact found
    · exact ((Arena.Relisted.dropLast _ current).rule? id).trans found

/-- The heading is that of an activation of the rule of the context. -/
def Announces (arena : Arena) (names : RuleNames) (id : NodeId) (heading : Heading) : Prop :=
  ∃ rule, arena.rule? id = some rule ∧ heading.name = called names rule

/-- A log is that of a narration, and its headings belong to the open contexts. -/
structure Narrated (names : RuleNames) (config : Config) (builder : Builder TraceLog)
    (stack : List NodeId) (narration : Narration) : Prop where
  mirrors : builder.Mirrors stack
  tracer : builder.tracer = narration.log names config
  leveled : Narration.Leveled narration.headings
  announced : List.Forall₂ (Announces builder.arena names) stack narration.headings

variable {names : RuleNames} {config : Config} {builder : Builder TraceLog} {stack : List NodeId}
  {narration : Narration} {arena : Arena}

theorem announced_next {headings : List Heading} (event : Event)
    (announced : List.Forall₂ (Announces builder.arena names) stack headings) :
    List.Forall₂ (Announces (event.next builder).arena names) stack headings := by
  refine announced.imp fun id heading announces => ?_
  obtain ⟨rule, found, name⟩ := announces
  exact ⟨rule, event.rule?_next builder found, name⟩

/-- A context that is added and listed is one of the rule that it was made with. -/
theorem rule?_new {arena after : Arena} (context : Context)
    (relisted : (arena.push (.context context)).Relisted after) :
    after.rule? arena.nextId = context.rule := by
  rw [relisted.rule?, Arena.rule?, Arena.context?_push, if_pos rfl]
  rfl

namespace Narrated

theorem headings_eq_nil (narrated : Narrated names config builder stack narration)
    (closed : builder.current = none) : narration.headings = [] := by
  have announced := narrated.announced
  rw [narrated.mirrors.eq_nil closed] at announced
  exact List.forall₂_nil_left_iff.mp announced

theorem closed (narrated : Narrated names config builder stack narration) {event : Event}
    (closed : builder.current = none) (inner : event.Inner) :
    Narrated names config (event.next builder) []
      (narration.tell names config builder.consumed.head? event) := by
  rw [inner.next_closed closed, TraceLog.tell_closed inner (narrated.headings_eq_nil closed),
    ← narrated.mirrors.eq_nil closed]
  exact narrated

theorem headings_eq_cons (narrated : Narrated names config builder stack narration) {id : NodeId}
    (isCurrent : builder.current = some id) :
    ∃ below heading outer, stack = id :: below ∧ narration.headings = heading :: outer ∧
      heading.level = outer.length ∧ Announces builder.arena names id heading ∧
      List.Forall₂ (Announces builder.arena names) below outer := by
  obtain ⟨below, rfl⟩ := narrated.mirrors.eq_cons isCurrent
  obtain ⟨heading, outer, announces, announced, headings⟩ :=
    List.forall₂_cons_left_iff.mp narrated.announced
  have leveled := narrated.leveled
  rw [headings] at leveled
  exact ⟨below, heading, outer, rfl, headings, leveled.1, announces, announced⟩

theorem enter (narrated : Narrated names config builder stack narration) (rule : RuleIndex)
    (invokingState : Option StateId) (start : Token) :
    Narrated names config ((Event.enter rule invokingState start).next builder)
      (builder.arena.nextId :: stack)
      (narration.tell names config builder.consumed.head? (.enter rule invokingState start)) := by
  refine ⟨narrated.mirrors.enter_step rule invokingState start, ?_, ⟨rfl, narrated.leveled⟩, ?_⟩
  · change TraceLog.observe (.enter rule start) builder.tracer = _
    rw [narrated.tracer]
    exact TraceLog.observe_enter rule invokingState start
  · refine .cons ⟨rule, rule?_new _ (builder.grow_relisted _ _), rfl⟩ ?_
    exact announced_next _ narrated.announced

theorem exit (narrated : Narrated names config builder stack narration) :
    Narrated names config (Event.exit.next builder) stack.tail
      (narration.tell names config builder.consumed.head? .exit) := by
  rcases isCurrent : builder.current with - | id
  · have empty := narrated.mirrors.eq_nil isCurrent
    rw [empty]
    exact narrated.closed isCurrent trivial
  · obtain ⟨below, heading, outer, rfl, headings, level, -, announced⟩ :=
      narrated.headings_eq_cons isCurrent
    have leveled := narrated.leveled
    have after : (narration.tell names config builder.consumed.head? .exit).headings = outer :=
      congrArg List.tail headings
    refine ⟨narrated.mirrors.exit_step, ?_, ?_, ?_⟩
    · have observed : (Event.exit.next builder).tracer =
          TraceLog.observe (.exit builder.consumed.head?) builder.tracer := by
        simp only [Event.next, isCurrent]
        rfl
      rw [observed, narrated.tracer]
      exact TraceLog.observe_exit headings level
    · rw [headings] at leveled
      rw [after]
      exact leveled.2
    · rw [after]
      exact announced_next .exit announced

theorem alt (narrated : Narrated names config builder stack narration) (number : UInt32) :
    ∃ next, Narrated names config ((Event.alt number).next builder) next
      (narration.tell names config builder.consumed.head? (.alt number)) := by
  rcases isCurrent : builder.current with - | generic
  · exact ⟨[], narrated.closed isCurrent trivial⟩
  · obtain ⟨below, heading, outer, rfl, headings, -, ⟨rule, ofRule, name⟩, announced⟩ :=
      narrated.headings_eq_cons isCurrent
    obtain ⟨context, found, contextRule⟩ := Option.bind_eq_some_iff.mp ofRule
    have next := Event.next_alt isCurrent found number
    refine ⟨builder.arena.nextId :: below, narrated.mirrors.alt_step rfl number, ?_, ?_, ?_⟩
    · rw [next, narrated.tracer]
      exact TraceLog.observe_alt headings number
    · exact narrated.leveled
    · -- The labelled context has the rule of the one that it takes over from.
      refine headings ▸ .cons ⟨rule, ?_, name⟩ (announced_next (.alt number) announced)
      rw [next]
      exact (rule?_new _ (relabel_relisted _ _ _ _)).trans contextRule

/-- What leaves the stack and the headings alone keeps them together. -/
theorem of_same (narrated : Narrated names config builder stack narration) {event : Event}
    (mirrors : (event.next builder).Mirrors stack) {told : Narration}
    (headings : told.headings = narration.headings)
    (tracer : (event.next builder).tracer = told.log names config) :
    Narrated names config (event.next builder) stack told := by
  refine ⟨mirrors, tracer, ?_, ?_⟩
  · rw [headings]
    exact narrated.leveled
  · rw [headings]
    exact announced_next event narrated.announced

theorem retract (narrated : Narrated names config builder stack narration) :
    Narrated names config (Event.retract.next builder) stack
      (narration.tell names config builder.consumed.head? .retract) := by
  rcases isCurrent : builder.current with - | id
  · have empty := narrated.mirrors.eq_nil isCurrent
    rw [empty]
    exact narrated.closed isCurrent trivial
  · obtain ⟨_, heading, outer, -, headings, -⟩ := narrated.headings_eq_cons isCurrent
    have next : Event.retract.next builder =
        { builder with
          arena := builder.arena.dropLast id
          consumed := unconsumed builder.consumed
            ((builder.arena.children id).getLast?.bind builder.arena.token?)
          tracer := TraceLog.observe .retract builder.tracer } := by
      simp only [Event.next, isCurrent]
      rfl
    refine narrated.of_same ?_ rfl ?_
    · rw [next]
      exact narrated.mirrors.keeps (.dropLast _ id) rfl
    · rw [next, narrated.tracer]
      exact TraceLog.observe_retract headings

/-- Every event is told as it goes. -/
theorem next (narrated : Narrated names config builder stack narration) (event : Event) :
    ∃ next, Narrated names config (event.next builder) next
      (narration.tell names config builder.consumed.head? event) := by
  cases event with
  | enter rule invokingState start => exact ⟨_, narrated.enter rule invokingState start⟩
  | exit => exact ⟨_, narrated.exit⟩
  | alt number => exact narrated.alt number
  | consume token =>
    refine ⟨stack, narrated.of_same ?_ rfl ?_⟩
    · exact narrated.mirrors.keeps (builder.sprout_keeps .terminal token) rfl
    · change TraceLog.observe (.consume token) builder.tracer = _
      rw [narrated.tracer]
      exact TraceLog.observe_consume token
  | recover token =>
    refine ⟨stack, narrated.of_same ?_ rfl ?_⟩
    · exact narrated.mirrors.keeps (builder.sprout_keeps .error token) rfl
    · change TraceLog.observe (.error token) builder.tracer = _
      rw [narrated.tracer]
      exact TraceLog.observe_recover token
  | retract => exact ⟨stack, narrated.retract⟩

end Narrated

/-! ## Runs -/

theorem Sound.narration_follow_eq (sound : builder.Sound) (narration : Narration)
    (names : RuleNames) (config : Config) (event : Event) :
    narration.follow names config event builder =
      .ok (narration.tell names config builder.consumed.head? event) (event.next builder) := by
  unfold Narration.follow
  refine (bind_of_ok rfl).trans ((bind_of_ok (Event.run_eq sound event)).trans ?_)
  rfl

theorem Narrated.run (narrated : Narrated names config builder stack narration)
    (sound : builder.Sound) (events : List Event) :
    ∃ told after next,
      events.foldlM (Narration.follow names config) narration builder = .ok told after ∧
        after.Sound ∧ Narrated names config after next told := by
  induction events generalizing builder stack narration with
  | nil => exact ⟨narration, builder, stack, rfl, sound, narrated⟩
  | cons event events ih =>
    obtain ⟨next, narratedNext⟩ := narrated.next event
    obtain ⟨told, after, last, later, soundAfter, narratedAfter⟩ :=
      ih narratedNext (sound.next event)
    refine ⟨told, after, last, ?_, soundAfter, narratedAfter⟩
    rw [List.foldlM_cons, bind_of_ok (sound.narration_follow_eq narration names config event)]
    exact later

/-- The way upwards through contexts passes all contexts of the stack. -/
theorem Mirrors.enclosing? {τ : Type} {builder : Builder τ} (mirrors : builder.Mirrors stack)
    (sound : builder.Sound) {id : NodeId} (isCurrent : builder.current = some id) :
    builder.arena.enclosing? id = some stack := by
  have linked : ∀ stack, OpenPath builder.arena stack →
      Follows (fun id => (builder.arena.context? id).bind Context.parent) stack := by
    intro stack path
    induction stack with
    | nil => trivial
    | cons id below ih =>
      obtain ⟨context, found⟩ := Option.isSome_iff_exists.mp
        (path.isContext id List.mem_cons_self)
      have parent : context.parent = below.head? :=
        (Arena.parent?_of_context? found).symm.trans path.follows.1
      exact ⟨(congrArg (Option.bind · Context.parent) found).trans parent, ih path.pop⟩
  have short := Arena.length_le_pathLimit sound.acyclic_parents mirrors.path.follows
  have top : stack.head? = some id := mirrors.current.symm.trans isCurrent
  rw [Arena.enclosing?, Tree.follow_eq_some_iff.mpr ⟨top, linked stack mirrors.path, short⟩]
  exact congrArg some (List.filter_eq_self.mpr mirrors.path.isContext)

/-- If their names resolve, the contexts are called by the names in their headings. -/
theorem ruleName_announced {headings : List Heading}
    (announced : List.Forall₂ (Announces arena names) stack headings)
    (resolved : ∀ id ∈ stack, ((arena.rule? id).bind names).isSome) :
    stack.map (arena.ruleName names) = headings.map Heading.name := by
  induction announced with
  | nil => rfl
  | @cons id heading below outer announces _ ih =>
    obtain ⟨here, resolvedBelow⟩ := List.forall_mem_cons.mp resolved
    obtain ⟨rule, ofRule, name⟩ := announces
    obtain ⟨text, isName⟩ := Option.isSome_iff_exists.mp here
    rw [ofRule, Option.bind_some] at isName
    have same : arena.ruleName names id = heading.name := by
      rw [name, Arena.ruleName, called, ofRule, Option.bind_some, isName]
      rfl
    rw [List.map_cons, List.map_cons, same, ih resolvedBelow]

/-- The log of a construction stays in step with it. In every run the log is the one that the
narration tells: the line at the end of an activation stands at the level and has the name of the
line at its beginning, every other line stands at the level of the activations that are open, and no
line falls back on an unknown activation.  The names that the log keeps are those of the headings,
which belong to the current context and its ancestors in this order, and name their rules.  If these
names resolve, they are the invocation stack of the current context.  Since every beginning of a run
is a run, all of this holds after each event. -/
theorem run_narrated (names : RuleNames) (logged config : Config) (events : List Event) :
    ∃ told after, events.foldlM (Narration.follow names logged) .silent
        (start config (TraceLog.start names logged)) = .ok told after ∧
      after.tracer.lines.toList = told.lines ∧
      after.tracer.openRules = told.headings.map Heading.name ∧
      (after.current = none → told.headings = []) ∧
      ∀ id, after.current = some id → ∃ stack, after.arena.lineage? id = some stack ∧
        List.Forall₂ (Announces after.arena names) stack told.headings ∧
        ((∀ x ∈ stack, ((after.arena.rule? x).bind names).isSome) →
          after.arena.invocationStack? names id = some after.tracer.openRules) := by
  have narrated : Narrated names logged (start config (TraceLog.start names logged)) []
      .silent := ⟨⟨rfl, by simp, trivial⟩, rfl, trivial, .nil⟩
  obtain ⟨told, after, stack, done, sound, narratedAfter⟩ :=
    narrated.run (start_sound config _) events
  have openRules : after.tracer.openRules = told.headings.map Heading.name := by
    rw [narratedAfter.tracer]
    rfl
  refine ⟨told, after, done, ?_, openRules, fun closed => ?_, fun id isCurrent => ?_⟩
  · rw [narratedAfter.tracer]
    exact List.toList_toArray
  · exact narratedAfter.headings_eq_nil closed
  · refine ⟨stack, narratedAfter.mirrors.lineage? sound isCurrent, narratedAfter.announced,
      fun resolved => ?_⟩
    rw [Arena.invocationStack?, narratedAfter.mirrors.enclosing? sound isCurrent, openRules,
      Option.map_some, ruleName_announced narratedAfter.announced resolved]

end Builder

end Recognizer
