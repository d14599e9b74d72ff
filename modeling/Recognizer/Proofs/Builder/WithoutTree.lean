import Recognizer.Proofs.Builder.Run
import Recognizer.Proofs.Tree.Counterpart

/-!
# Constructions without a tree

A builder that builds no tree creates the same contexts as one that does, at other ids, since it has
no leaves.  `Agree` relates the two: their contexts are alike, matched by age, the current contexts
and the roots are matched, and the same was consumed and told to the tracer.  `Bare` says what the
builder without a tree is like.

Every event keeps both (`Agree.next`, `Bare.next`), as long as the builder with a tree takes no leaf
back: only there the token of that leaf would cease to be consumed.
-/

namespace Recognizer.Builder

open Recognizer.Tree (Arena Context LeafKind Node NodeId rel_cases rel_isNone rel_mono)
open Recognizer.Tree.Arena (Alike Counterparts Relisted)

variable {τ : Type}

/-! ## A builder without a tree -/

/-- No tree is built: there are no leaves, and no context has children. -/
structure Bare (builder : Builder τ) : Prop where
  builds : builder.buildsTree = false
  childless : ∀ id, builder.arena.children id = []
  leafless : ∀ id leaf, builder.arena.node? id ≠ some (.leaf leaf)

/-- Two builders whose contexts are alike, and which stand at matched contexts of them. -/
structure Agree (on off : Builder τ) : Prop where
  alike : on.arena.Alike off.arena
  current : Option.Rel (Counterparts on.arena off.arena) on.current off.current
  root : Option.Rel (Counterparts on.arena off.arena) on.root off.root
  consumed : on.consumed = off.consumed
  tracer : on.tracer = off.tracer

/-- What is taken back is no leaf. -/
def Event.SparesLeaves (builder : Builder τ) : Event → Prop
  | retract => ∀ id ∈ builder.current, ∀ child ∈ (builder.arena.children id).getLast?,
      builder.arena.token? child = none
  | enter _ _ _ | exit | alt _ | consume _ | recover _ => True

instance (builder : Builder τ) : (event : Event) → Decidable (event.SparesLeaves builder)
  | .retract => inferInstanceAs (Decidable (∀ id ∈ builder.current,
      ∀ child ∈ (builder.arena.children id).getLast?, builder.arena.token? child = none))
  | .enter _ _ _ | .exit | .alt _ | .consume _ | .recover _ => isTrue trivial

variable {builder on off : Builder τ}

theorem start_bare (config : Config) (tracer : τ) (treeless : config.buildsTree = false) :
    (start config tracer).Bare where
  builds := treeless
  childless _ := rfl
  leafless _ _ found := by cases found

theorem start_agree (config config' : Config) (tracer : τ) :
    (start config tracer).Agree (start config' tracer) where
  alike := .empty
  current := .none
  root := .none
  consumed := rfl
  tracer := rfl

/-! ## Events without a tree -/

namespace Bare

theorem grow_eq (bare : builder.Bare) (parent : Option NodeId) (node : Node) :
    builder.grow parent node = builder.arena.push node := by
  unfold grow
  rw [bare.builds]
  rcases parent <;> rfl

theorem relabel_eq (bare : builder.Bare) (generic : NodeId) (context : Context)
    (number : UInt32) :
    relabel builder.arena generic context number =
      builder.arena.push (.context (labelled context number)) := by
  unfold relabel
  split
  · rw [bare.childless, if_neg (by simp)]
  · rfl

theorem sprout_eq (bare : builder.Bare) (kind : LeafKind) (token : Token) :
    builder.sprout kind token = builder.arena := by
  unfold sprout
  rw [bare.builds]
  rcases builder.current <;> rfl

theorem of_arena (bare : builder.Bare) {after : Builder τ}
    (builds : after.buildsTree = builder.buildsTree) (arena : after.arena = builder.arena) :
    after.Bare where
  builds := builds.trans bare.builds
  childless := arena ▸ bare.childless
  leafless := arena ▸ bare.leafless

/-- A context without children is added. -/
theorem push (bare : builder.Bare) {after : Builder τ} {context : Context}
    (builds : after.buildsTree = builder.buildsTree)
    (arena : after.arena = builder.arena.push (.context context))
    (childless : context.children = []) : after.Bare where
  builds := builds.trans bare.builds
  childless id := by
    rw [arena, Arena.children_push]
    split
    · exact childless
    · exact bare.childless id
  leafless id leaf found := by
    rw [arena, Arena.node?_push] at found
    split at found
    · cases found
    · exact bare.leafless id leaf found

/-- A context is changed, but not its children. -/
theorem modify (bare : builder.Bare) {after : Builder τ} {target : NodeId}
    {change : Context → Context} (builds : after.buildsTree = builder.buildsTree)
    (arena : after.arena = builder.arena.modify target (.onContext change))
    (keeps : ∀ context, (change context).children = context.children) : after.Bare where
  builds := builds.trans bare.builds
  childless id := by
    rw [arena, Arena.children_modify_onContext keeps]
    exact bare.childless id
  leafless id leaf found := by
    rw [arena, Arena.node?_modify] at found
    split at found
    · obtain ⟨node, here, isLeaf⟩ := Option.map_eq_some_iff.mp found
      cases node with
      | leaf l => exact bare.leafless id l here
      | context c => cases isLeaf
    · exact bare.leafless id leaf found

variable [Tracer τ]

theorem next (bare : builder.Bare) (event : Event) : (event.next builder).Bare := by
  have builds := event.next_buildsTree builder
  cases event with
  | enter rule invokingState start => exact bare.push builds (bare.grow_eq _ _) rfl
  | exit =>
    unfold Event.next
    rcases builder.current with - | id
    · exact bare
    · dsimp only
      rcases stop : builder.consumed.head? with - | token
      · exact bare.of_arena rfl rfl
      · exact bare.modify rfl rfl fun _ => rfl
  | alt number =>
    unfold Event.next
    rcases builder.current with - | generic
    · exact bare
    · dsimp only
      rcases builder.arena.context? generic with - | context
      · exact bare
      · exact bare.push rfl (bare.relabel_eq generic context number) rfl
  | consume token => exact bare.of_arena builds (bare.sprout_eq .terminal token)
  | recover token => exact bare.of_arena builds (bare.sprout_eq .error token)
  | retract =>
    unfold Event.next
    rcases builder.current with - | id
    · exact bare
    · exact bare.of_arena rfl (Arena.dropLast_of_children_eq_nil (bare.childless id))

end Bare

/-! ## Events with and without a tree -/

namespace Agree

/-- Of two matched contexts both are the root or none is. -/
theorem root_eq_iff (agree : on.Agree off) {x y : NodeId}
    (matched : Counterparts on.arena off.arena x y) :
    on.root = some x ↔ off.root = some y := by
  rcases rel_cases agree.root with ⟨rootless, rootlessToo⟩ | ⟨r, s, isRoot, isRootToo, found⟩
  · simp [rootless, rootlessToo]
  · rw [isRoot, isRootToo, Option.some.injEq, Option.some.injEq]
    exact matched.eq_iff_eq found

variable [Tracer τ]

theorem enter (agree : on.Agree off) (rule : RuleIndex) (invokingState : Option StateId)
    (start : Token) :
    ((Event.enter rule invokingState start).next on).Agree
      ((Event.enter rule invokingState start).next off) := by
  have agrees : (opened on.current invokingState rule start).Agrees
      (Counterparts on.arena off.arena) (opened off.current invokingState rule start) :=
    ⟨agree.current, rfl, rfl, rfl, rfl, rfl⟩
  obtain ⟨alike, more, new⟩ := agree.alike.push_relisted agrees (on.grow_relisted on.current _)
    (off.grow_relisted off.current _)
  refine ⟨alike, .some new, ?_, agree.consumed,
    congrArg (Tracer.observe (.enter rule start)) agree.tracer⟩
  simp only [Event.next, rel_isNone agree.current, rel_isNone agree.root]
  split
  · exact .some new
  · exact rel_mono more agree.root

theorem exit (agree : on.Agree off) : (Event.exit.next on).Agree (Event.exit.next off) := by
  rcases rel_cases agree.current with ⟨onClosed, offClosed⟩ | ⟨x, y, onOpen, offOpen, matched⟩
  · simp only [Event.next, onClosed, offClosed]
    exact agree
  · have parents := agree.alike.parent? matched
    have tracer (hook : Hook) := congrArg (Tracer.observe hook) agree.tracer
    simp only [Event.next, onOpen, offOpen, agree.consumed]
    rcases off.consumed.head? with - | token
    · exact ⟨agree.alike, parents, agree.root, rfl, tracer _⟩
    · have same := Arena.counterparts_congr
        (Arena.contextIds_modify_onContext on.arena x fun c => { c with stop := some token })
        (Arena.contextIds_modify_onContext off.arena y fun c => { c with stop := some token })
      refine ⟨agree.alike.modify matched fun c d agrees => { agrees with stop := rfl }, ?_, ?_, rfl,
        tracer _⟩
      · rw [same]
        exact parents
      · rw [same]
        exact agree.root

theorem alt (agree : on.Agree off) (number : UInt32) :
    ((Event.alt number).next on).Agree ((Event.alt number).next off) := by
  rcases rel_cases agree.current with ⟨onClosed, offClosed⟩ | ⟨x, y, onOpen, offOpen, matched⟩
  · simp only [Event.next, onClosed, offClosed]
    exact agree
  · obtain ⟨c, d, here, there, agrees⟩ := agree.alike.agree matched
    have labels : (labelled c number).Agrees (Counterparts on.arena off.arena)
        (labelled d number) := { agrees with alt := rfl }
    obtain ⟨alike, more, new⟩ := agree.alike.push_relisted labels
      (relabel_relisted on.arena x c number) (relabel_relisted off.arena y d number)
    have tracer := congrArg (Tracer.observe (.alt number)) agree.tracer
    simp only [Event.next, onOpen, offOpen, here, there, agree.root_eq_iff matched]
    refine ⟨alike, .some new, ?_, agree.consumed, tracer⟩
    dsimp only
    split
    · exact .some new
    · exact rel_mono more agree.root

theorem recorded (agree : on.Agree off) (kind : LeafKind) (hook : Hook) (token : Token) :
    (on.recorded kind hook token).Agree (off.recorded kind hook token) := by
  have onRelisted := on.sprout_relisted kind token
  have offRelisted := off.sprout_relisted kind token
  have same := Arena.counterparts_congr onRelisted.contextIds offRelisted.contextIds
  refine ⟨agree.alike.relisted onRelisted offRelisted, ?_, ?_, congrArg (token :: ·) agree.consumed,
    congrArg (Tracer.observe hook) agree.tracer⟩
  · exact same ▸ agree.current
  · exact same ▸ agree.root

theorem retract (agree : on.Agree off) (bare : off.Bare) (spares : Event.retract.SparesLeaves on) :
    (Event.retract.next on).Agree (Event.retract.next off) := by
  rcases rel_cases agree.current with ⟨onClosed, offClosed⟩ | ⟨x, y, onOpen, offOpen, matched⟩
  · simp only [Event.next, onClosed, offClosed]
    exact agree
  · have onRelisted := Relisted.dropLast on.arena x
    have offRelisted := Relisted.dropLast off.arena y
    have same := Arena.counterparts_congr onRelisted.contextIds offRelisted.contextIds
    have tokenless : (on.arena.children x).getLast?.bind on.arena.token? = none := by
      rcases last : (on.arena.children x).getLast? with - | child
      · rfl
      · exact spares x onOpen child last
    -- Without a tree there is nothing to take back.
    have tokenlessToo : (off.arena.children y).getLast?.bind off.arena.token? = none := by
      rw [bare.childless]
      rfl
    have kept (consumed : List Token) : unconsumed consumed none = consumed := rfl
    have tracer := congrArg (Tracer.observe .retract) agree.tracer
    simp only [Event.next, onOpen, offOpen, tokenless, tokenlessToo, kept]
    refine ⟨agree.alike.relisted onRelisted offRelisted, ?_, ?_, agree.consumed, tracer⟩
    · rw [same, ← onOpen, ← offOpen]
      exact agree.current
    · rw [same]
      exact agree.root

theorem next (agree : on.Agree off) (bare : off.Bare) {event : Event}
    (spares : event.SparesLeaves on) : (event.next on).Agree (event.next off) := by
  cases event with
  | enter rule invokingState start => exact agree.enter rule invokingState start
  | exit => exact agree.exit
  | alt number => exact agree.alt number
  | consume token => exact agree.recorded .terminal (.consume token) token
  | recover token => exact agree.recorded .error (.error token) token
  | retract => exact agree.retract bare spares

end Agree

/-! ## Runs -/

variable [Tracer τ]

/-- A run with a tree, in which no leaf is taken back, and the run without one go the same way. -/
theorem Agree.run (agree : on.Agree off) (bare : off.Bare) (onSound : on.Sound)
    (offSound : off.Sound) {events : List Event}
    (spares : Throughout Event.SparesLeaves on events) :
    ∃ answers onAfter answers' offAfter, events.mapM Event.run on = .ok answers onAfter ∧
      events.mapM Event.run off = .ok answers' offAfter ∧ onAfter.Agree offAfter ∧
      offAfter.Bare := by
  induction events generalizing on off with
  | nil => exact ⟨[], on, [], off, rfl, rfl, agree, bare⟩
  | cons event events ih =>
    obtain ⟨sparesNow, sparesLater⟩ := onSound.throughout_cons.mp spares
    obtain ⟨answers, onAfter, answers', offAfter, onDone, offDone, rest⟩ :=
      ih (agree.next bare sparesNow) (bare.next event) (onSound.next event) (offSound.next event)
        sparesLater
    exact ⟨_, onAfter, _, offAfter, onSound.mapM_cons onDone, offSound.mapM_cons offDone, rest⟩

/-- Building a tree does not change what is recorded about contexts.  If no leaf is taken back while
a tree is built, the run with a tree and the run without one, which are never refused, create
equally many contexts.  The k-th ones have the same rule, invoking state, alternative, start and
stop, and their parents are the k-th ones of their runs for the same k, as are the current contexts
and the roots; the same tokens are consumed, and the tracer is told the same.  Without a tree there
are no leaves and all child lists stay empty. -/
theorem run_without_tree (verbosity : Verbosity) (highlight : Text.Highlight) (tracer : τ)
    (events : List Event)
    (spares : Throughout Event.SparesLeaves (start ⟨true, verbosity, highlight⟩ tracer) events) :
    ∃ answers on answers' off,
      events.mapM Event.run (start ⟨true, verbosity, highlight⟩ tracer) = .ok answers on ∧
      events.mapM Event.run (start ⟨false, verbosity, highlight⟩ tracer) = .ok answers' off ∧
      on.arena.contextIds.length = off.arena.contextIds.length ∧
      (∀ (k : Nat) x y, on.arena.contextIds[k]? = some x → off.arena.contextIds[k]? = some y →
        ∃ c d, on.arena.context? x = some c ∧ off.arena.context? y = some d ∧
          c.Agrees (Counterparts on.arena off.arena) d) ∧
      Option.Rel (Counterparts on.arena off.arena) on.current off.current ∧
      Option.Rel (Counterparts on.arena off.arena) on.root off.root ∧
      on.consumed = off.consumed ∧ on.tracer = off.tracer ∧
      (∀ id, off.arena.children id = []) ∧
      ∀ id leaf, off.arena.node? id ≠ some (.leaf leaf) := by
  obtain ⟨answers, on, answers', off, onDone, offDone, agree, bare⟩ :=
    (start_agree _ ⟨false, verbosity, highlight⟩ tracer).run (start_bare _ tracer rfl)
      (start_sound _ tracer) (start_sound _ tracer) spares
  refine ⟨answers, on, answers', off, onDone, offDone, agree.alike.count, ?_, agree.current,
    agree.root, agree.consumed, agree.tracer, bare.childless, bare.leafless⟩
  exact fun k x y here there => agree.alike.agree ⟨k, here, there⟩

/-- A root that is relabelled, and a rule in it that is taken back with what was skipped there. -/
def abandonedRule : List Event :=
  [.enter 0 none (.ofType 4 0), .alt 2, .consume (.ofType 4 0), .enter 1 (some 7) (.ofType 5 1),
    .recover (.ofType 5 1), .exit, .retract, .enter 2 (some 9) (.ofType 6 2),
    .consume (.ofType 6 2), .exit]

theorem contexts_of_abandoned_rule :
    Throughout Event.SparesLeaves (start ⟨true, .brief, .off⟩ ()) abandonedRule ∧
      ∃ answers on answers' off,
        abandonedRule.mapM Event.run (start ⟨true, .brief, .off⟩ ()) = .ok answers on ∧
        abandonedRule.mapM Event.run (start ⟨false, .brief, .off⟩ ()) = .ok answers' off ∧
        on.arena.contextIds = [⟨0⟩, ⟨1⟩, ⟨3⟩, ⟨5⟩] ∧ off.arena.contextIds = [⟨0⟩, ⟨1⟩, ⟨2⟩, ⟨3⟩] ∧
        ∃ c d, on.arena.context? ⟨3⟩ = some c ∧ off.arena.context? ⟨2⟩ = some d ∧
          c.Agrees (Counterparts on.arena off.arena) d := by
  have spares : Throughout Event.SparesLeaves (start ⟨true, .brief, .off⟩ ()) abandonedRule := by
    decide +kernel
  have idsWith : (match abandonedRule.mapM Event.run (start ⟨true, .brief, .off⟩ ()) with
    | .ok _ after => after.arena.contextIds
    | .error _ _ => []) = [⟨0⟩, ⟨1⟩, ⟨3⟩, ⟨5⟩] := by decide +kernel
  have idsWithout : (match abandonedRule.mapM Event.run (start ⟨false, .brief, .off⟩ ()) with
    | .ok _ after => after.arena.contextIds
    | .error _ _ => []) = [⟨0⟩, ⟨1⟩, ⟨2⟩, ⟨3⟩] := by decide +kernel
  obtain ⟨answers, on, answers', off, onDone, offDone, -, agree, -⟩ :=
    run_without_tree .brief .off () abandonedRule spares
  rw [onDone] at idsWith
  rw [offDone] at idsWithout
  dsimp only at idsWith idsWithout
  refine ⟨spares, answers, on, answers', off, onDone, offDone, idsWith, idsWithout, ?_⟩
  exact agree 2 ⟨3⟩ ⟨2⟩ (by rw [idsWith]; rfl) (by rw [idsWithout]; rfl)

end Recognizer.Builder
