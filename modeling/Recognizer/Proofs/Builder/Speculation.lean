import Recognizer.Proofs.Builder.WithoutTree
import Recognizer.Proofs.Tree.Renumbering

/-!
# Tokens on trial

A recognizer may consume tokens on trial and take them back.  With a tree this leaves a builder as
it was (`Restored`), but for the tracer and for the leaves, which stay in the arena although nothing
refers to them.  All nodes to come are younger than these leaves, so that every event goes on as if
the tokens had not been offered, up to a renumbering of the nodes (`Mimics`).

Without a tree there is no leaf to take back, and the tokens stay consumed (`Bare.foldl_retract`).
-/

namespace Recognizer.Builder

open Recognizer.Tree (Arena Context LeafKind Node NodeId)

variable {τ : Type} {f : NodeId → NodeId} {builder other : Builder τ}

/-! ## Events up to a renumbering -/

/-- The other builder has the nodes at other ids, and is the same but for that and its tracer. -/
structure Mimics (f : NodeId → NodeId) (builder other : Builder τ) : Prop where
  arena : builder.arena.Renumbers f other.arena
  current : other.current = builder.current.map f
  root : other.root = builder.root.map f
  consumed : other.consumed = builder.consumed
  builds : other.buildsTree = builder.buildsTree

theorem relabel_renumbers {arena other : Arena} (renumbers : arena.Renumbers f other)
    (generic : NodeId) (context : Context) (number : UInt32) :
    (relabel arena generic context number).Renumbers f
      (relabel other (f generic) (context.rename f) number) := by
  have pushed := renumbers.push (.context (labelled context number))
  have parent : (context.rename f).parent = context.parent.map f := rfl
  unfold relabel
  rw [parent]
  rcases context.parent with - | above
  · exact pushed
  · simp only [Option.map_some, renumbers.isLast_iff]
    split
    · rw [← renumbers.nextId]
      exact (pushed.dropLast above).append above arena.nextId
    · exact pushed

namespace Mimics

theorem nextId (mimics : builder.Mimics f other) : f builder.arena.nextId = other.arena.nextId :=
  mimics.arena.nextId

theorem grow (mimics : builder.Mimics f other) (parent : Option NodeId) (node : Node) :
    (builder.grow parent node).Renumbers f (other.grow (parent.map f) (node.rename f)) := by
  have pushed := mimics.arena.push node
  unfold Builder.grow
  rw [mimics.builds]
  rcases parent with - | above
  · exact pushed
  · rcases builder.buildsTree
    · exact pushed
    · rw [← mimics.nextId]
      exact pushed.append above builder.arena.nextId

theorem sprout (mimics : builder.Mimics f other) (kind : LeafKind) (token : Token) :
    (builder.sprout kind token).Renumbers f (other.sprout kind token) := by
  unfold Builder.sprout
  rw [mimics.current, mimics.builds]
  rcases builder.current with - | above
  · exact mimics.arena
  · rcases builder.buildsTree
    · exact mimics.arena
    · have grown := (mimics.arena.push (.leaf ⟨kind, token, above⟩)).append above
        builder.arena.nextId
      rw [mimics.nextId] at grown
      exact grown

theorem root_eq_iff (mimics : builder.Mimics f other) {id : NodeId} :
    other.root = some (f id) ↔ builder.root = some id := by
  rw [mimics.root, Option.map_eq_some_iff]
  constructor
  · rintro ⟨root, isRoot, same⟩
    rw [isRoot, mimics.arena.injective same]
  · exact fun isRoot => ⟨id, isRoot, rfl⟩

variable [Tracer τ]

theorem enter (mimics : builder.Mimics f other) (rule : RuleIndex) (invokingState : Option StateId)
    (start : Token) :
    ((Event.enter rule invokingState start).next builder).Mimics f
      ((Event.enter rule invokingState start).next other) := by
  refine ⟨?_, congrArg some mimics.nextId.symm, ?_, mimics.consumed, mimics.builds⟩
  · have grown := mimics.grow builder.current
      (.context (opened builder.current invokingState rule start))
    rw [← mimics.current] at grown
    have renamed : (opened builder.current invokingState rule start).rename f =
        opened other.current invokingState rule start := by
      rw [mimics.current]
      rfl
    rw [Node.rename, renamed] at grown
    exact grown
  · simp only [Event.next, mimics.current, mimics.root, Option.isNone_map, ← mimics.nextId]
    split <;> rfl

theorem exit (mimics : builder.Mimics f other) :
    (Event.exit.next builder).Mimics f (Event.exit.next other) := by
  unfold Event.next
  rw [mimics.current]
  rcases isCurrent : builder.current with - | id
  · exact mimics
  · have parent := mimics.arena.parent? id
    dsimp only [Option.map_some]
    rw [mimics.consumed]
    rcases builder.consumed.head? with - | token
    · exact ⟨mimics.arena, parent, mimics.root, rfl, mimics.builds⟩
    · refine ⟨?_, parent, mimics.root, rfl, mimics.builds⟩
      exact mimics.arena.modify_onContext id fun _ => rfl

theorem alt (mimics : builder.Mimics f other) (number : UInt32) :
    ((Event.alt number).next builder).Mimics f ((Event.alt number).next other) := by
  unfold Event.next
  rw [mimics.current]
  rcases isCurrent : builder.current with - | generic
  · exact mimics
  · have renamed := mimics.arena.context? generic
    dsimp only [Option.map_some]
    rw [renamed]
    rcases builder.arena.context? generic with - | context
    · exact mimics
    · refine ⟨relabel_renumbers mimics.arena generic context number,
        congrArg some mimics.nextId.symm, ?_, mimics.consumed, mimics.builds⟩
      simp only [Option.map_some, mimics.root_eq_iff, ← mimics.nextId]
      split
      · rfl
      · exact mimics.root

theorem recorded (mimics : builder.Mimics f other) (kind : LeafKind) (hook : Hook) (token : Token) :
    (builder.recorded kind hook token).Mimics f (other.recorded kind hook token) where
  arena := mimics.sprout kind token
  current := mimics.current
  root := mimics.root
  consumed := congrArg (token :: ·) mimics.consumed
  builds := mimics.builds

theorem retract (mimics : builder.Mimics f other) :
    (Event.retract.next builder).Mimics f (Event.retract.next other) := by
  unfold Event.next
  rw [mimics.current]
  rcases isCurrent : builder.current with - | id
  · exact mimics
  · have token : (other.arena.children (f id)).getLast?.bind other.arena.token? =
        (builder.arena.children id).getLast?.bind builder.arena.token? := by
      rw [mimics.arena.getLast?_children]
      rcases (builder.arena.children id).getLast? with - | child
      · rfl
      · exact mimics.arena.token? child
    refine ⟨mimics.arena.dropLast id, rfl, mimics.root, ?_, mimics.builds⟩
    dsimp only [Option.map_some]
    rw [token, mimics.consumed]

/-- Every event does the same in both. -/
theorem next (mimics : builder.Mimics f other) (event : Event) :
    (event.next builder).Mimics f (event.next other) := by
  cases event with
  | enter rule invokingState start => exact mimics.enter rule invokingState start
  | exit => exact mimics.exit
  | alt number => exact mimics.alt number
  | consume token => exact mimics.recorded .terminal (.consume token) token
  | recover token => exact mimics.recorded .error (.error token) token
  | retract => exact mimics.retract

omit [Tracer τ] in
theorem answer (mimics : builder.Mimics f other) (event : Event) :
    event.answer other = (event.answer builder).map f := by
  have recorded : (other.current.bind fun _ =>
        if other.buildsTree then some other.arena.nextId else none) =
      (builder.current.bind fun _ =>
        if builder.buildsTree then some builder.arena.nextId else none).map f := by
    rw [mimics.current, mimics.builds, ← mimics.nextId]
    rcases builder.current with - | id
    · rfl
    · rcases builder.buildsTree <;> rfl
  cases event with
  | enter rule invokingState start => exact congrArg some mimics.nextId.symm
  | exit => exact mimics.current
  | alt number =>
    simp only [Event.answer, mimics.current, ← mimics.nextId, Option.map_map]
    rfl
  | consume token => exact recorded
  | recover token => exact recorded
  | retract =>
    simp only [Event.answer, mimics.current]
    rcases builder.current with - | id
    · rfl
    · exact mimics.arena.getLast?_children id

/-- Every run does the same in both, and gives the same answers. -/
theorem run (mimics : builder.Mimics f other) (sound : builder.Sound) (soundToo : other.Sound)
    (events : List Event) :
    ∃ answers after final, events.mapM Event.run builder = .ok answers after ∧
      events.mapM Event.run other = .ok (answers.map (·.map f)) final ∧
      after.Mimics f final := by
  induction events generalizing builder other with
  | nil => exact ⟨[], builder, other, rfl, rfl, mimics⟩
  | cons event events ih =>
    obtain ⟨answers, after, final, done, doneToo, mimicsAfter⟩ :=
      ih (mimics.next event) (sound.next event) (soundToo.next event)
    refine ⟨_, after, final, sound.mapM_cons done, ?_, mimicsAfter⟩
    rw [List.map_cons, ← mimics.answer event]
    exact soundToo.mapM_cons doneToo

end Mimics

/-! ## Tokens that are taken back -/

/-- The event that offers a token for a leaf of the given kind. -/
def Event.offer : LeafKind × Token → Event
  | (.terminal, token) => .consume token
  | (.error, token) => .recover token

/-- Tokens are offered one after the other, and then as many are taken back. -/
def trial (offers : List (LeafKind × Token)) : List Event :=
  offers.map Event.offer ++ List.replicate offers.length .retract

/-- The builder is as it was, but for its tracer, for what is consumed, and for new nodes that no
link leads to. -/
structure Restored (before after : Builder τ) (extra : Nat) : Prop where
  size : after.arena.size = before.arena.size + extra
  nodes : ∀ id, id.index < before.arena.size → after.arena.node? id = before.arena.node? id
  current : after.current = before.current
  root : after.root = before.root
  builds : after.buildsTree = before.buildsTree

theorem Restored.refl (builder : Builder τ) : builder.Restored builder 0 :=
  ⟨rfl, fun _ _ => rfl, rfl, rfl, rfl⟩

/-- What goes on from a restored builder goes on as it would have done before. -/
theorem Restored.mimics {before after : Builder τ} {extra : Nat}
    (restored : before.Restored after extra) (sound : before.Sound)
    (consumed : after.consumed = before.consumed) :
    before.Mimics (.shift before.arena.size extra) after := by
  have stays (id : Option NodeId) (isContext : ∀ context ∈ id, before.arena.IsContext context) :
      id = id.map (.shift before.arena.size extra) := by
    rcases id with - | context
    · rfl
    · exact congrArg some (NodeId.shift_of_lt (isContext context rfl).lt_size).symm
  refine ⟨sound.forest.renumbers_of_extended restored.size restored.nodes, ?_, ?_, consumed,
    restored.builds⟩
  · exact restored.current.trans (stays _ fun _ => sound.current_context)
  · exact restored.root.trans (stays _ fun _ => sound.root_context)

variable [Tracer τ]

theorem Event.next_offer (offer : LeafKind × Token) (builder : Builder τ) :
    ∃ hook, (Event.offer offer).next builder = builder.recorded offer.1 hook offer.2 := by
  rcases offer with ⟨_ | _, token⟩
  · exact ⟨.consume token, rfl⟩
  · exact ⟨.error token, rfl⟩

/-- The token that is offered first is taken back last. -/
theorem foldl_trial_cons (offer : LeafKind × Token) (offers : List (LeafKind × Token))
    (builder : Builder τ) :
    (trial (offer :: offers)).foldl Event.next builder =
      Event.retract.next ((trial offers).foldl Event.next ((Event.offer offer).next builder)) := by
  simp only [trial, List.map_cons, List.length_cons, List.replicate_succ', List.cons_append,
    List.foldl_cons, ← List.append_assoc, List.foldl_append, List.foldl_nil]

/-- The token of the last leaf is taken back when all that followed it has been. -/
theorem Restored.retract (sound : builder.Sound) (builds : builder.buildsTree = true)
    {top : NodeId} (isCurrent : builder.current = some top) {kind : LeafKind} {hook : Hook}
    {token : Token} {after : Builder τ} {extra : Nat}
    (restored : (builder.recorded kind hook token).Restored after extra)
    (consumed : after.consumed = token :: builder.consumed) :
    builder.Restored (Event.retract.next after) (extra + 1) ∧
      (Event.retract.next after).consumed = builder.consumed := by
  have isContext := sound.current_context isCurrent
  have isCurrentAfter : after.current = some top := restored.current.trans isCurrent
  have sprouted : (builder.recorded kind hook token).arena = _ :=
    sprout_listed builds isCurrent kind token
  have size : (builder.recorded kind hook token).arena.size = builder.arena.size + 1 := by
    rw [sprouted, Arena.append, Arena.size_modify, Arena.size_push]
  have still (id : NodeId) (inside : id.index < builder.arena.size + 1) :
      after.arena.node? id = ((builder.arena.push (.leaf ⟨kind, token, top⟩)).append top
        builder.arena.nextId).node? id := by
    rw [restored.nodes id (size ▸ inside), sprouted]
  have children : after.arena.children top =
      builder.arena.children top ++ [builder.arena.nextId] := by
    rw [Arena.children_eq, still top (Nat.lt_succ_of_lt isContext.lt_size), ← Arena.children_eq]
    exact Arena.children_push_append isContext _
  have last : (after.arena.children top).getLast?.bind after.arena.token? = some token := by
    rw [children, List.getLast?_concat, Option.bind_some, Arena.token?,
      still builder.arena.nextId (Nat.lt_succ_self _), ← Arena.token?, Arena.append,
      Arena.token?_modify_onContext, Arena.token?_push, if_pos rfl]
    rfl
  simp only [Event.next, isCurrentAfter, last, consumed]
  refine ⟨⟨?_, fun id inside => ?_, isCurrent.symm, restored.root, restored.builds⟩, ?_⟩
  · dsimp only
    rw [Arena.dropLast, Arena.size_modify, restored.size, size]
    omega
  · -- What was appended to the list of the current context is dropped from it.
    dsimp only
    rw [Arena.dropLast, Arena.node?_modify, still id (Nat.lt_succ_of_lt inside), Arena.append,
      Arena.node?_modify, Arena.node?_push, if_neg (Arena.ne_nextId_of_lt_size inside)]
    split
    · rcases builder.arena.node? id with - | ⟨l⟩ | ⟨c⟩
      · rfl
      · rfl
      · simp [Node.onContext, Tree.Context.append, Tree.Context.dropLast,
          Tree.Context.withChildren]
    · rfl
  · simp [unconsumed]

/-- With a tree, tokens on trial leave a builder as it was. -/
theorem Sound.restored_trial (sound : builder.Sound) (builds : builder.buildsTree = true)
    {top : NodeId} (isCurrent : builder.current = some top) (offers : List (LeafKind × Token)) :
    builder.Restored ((trial offers).foldl Event.next builder) offers.length ∧
      ((trial offers).foldl Event.next builder).consumed = builder.consumed := by
  induction offers generalizing builder with
  | nil => exact ⟨.refl builder, rfl⟩
  | cons offer offers ih =>
    obtain ⟨hook, offered⟩ := Event.next_offer offer builder
    rw [foldl_trial_cons, offered]
    obtain ⟨restored, consumed⟩ := ih (sound.recorded offer.1 hook offer.2) builds isCurrent
    exact restored.retract sound builds isCurrent consumed

namespace Bare

theorem foldl (bare : builder.Bare) (events : List Event) :
    (events.foldl Event.next builder).Bare := by
  induction events generalizing builder with
  | nil => exact bare
  | cons event events ih => exact ih (bare.next event)

/-- Without a tree, taking back does nothing. -/
theorem retract_eq (bare : builder.Bare) :
    ∃ tracer, Event.retract.next builder = { builder with tracer } := by
  rcases builder with ⟨arena, current, root, consumed, buildsTree, tracer⟩
  rcases current with - | id
  · exact ⟨tracer, rfl⟩
  · have childless : arena.children id = [] := bare.childless id
    refine ⟨Tracer.observe .retract tracer, ?_⟩
    simp [Event.next, Arena.dropLast_of_children_eq_nil childless, childless, unconsumed]

/-- Without a tree, tokens on trial stay consumed. -/
theorem trial_eq (bare : builder.Bare) (offers : List (LeafKind × Token)) :
    ∃ tracer, (trial offers).foldl Event.next builder =
      { builder with
        consumed := (offers.map Prod.snd).reverse ++ builder.consumed
        tracer } := by
  induction offers generalizing builder with
  | nil => exact ⟨builder.tracer, rfl⟩
  | cons offer offers ih =>
    obtain ⟨hook, offered⟩ := Event.next_offer offer builder
    have sprouted := bare.sprout_eq offer.1 offer.2
    have recorded : (builder.recorded offer.1 hook offer.2).Bare := bare.of_arena rfl sprouted
    obtain ⟨tracer, reached⟩ := ih recorded
    obtain ⟨tracerAfter, stays⟩ := (recorded.foldl (trial offers)).retract_eq
    refine ⟨tracerAfter, ?_⟩
    rw [foldl_trial_cons, offered, stays, reached]
    simp [Builder.recorded, sprouted]

end Bare

/-! ## Runs -/

/-- Tokens on trial are taken back completely if trees are built.  In every state that a run can
reach with an activation open, any tokens, matched or skipped, are offered and taken back without
being refused.  The current context, the root and all nodes that existed before are then as they
were.  If trees are built, so are the consumed tokens, and whatever follows goes on as if the tokens
had not been offered: it gives the same answers and leaves the same builder but for the tracer and
for the ids of new nodes, so that every context that is closed gets the same stop.  If no trees are
built, nothing is created, and the tokens stay consumed. -/
theorem run_trial (config : Config) (tracer : τ) (past : List Event)
    {answers : List (Option NodeId)} {before : Builder τ}
    (reached : past.mapM Event.run (start config tracer) = .ok answers before)
    (isOpen : before.current.isSome) (offers : List (LeafKind × Token)) :
    ∃ answers' after, (trial offers).mapM Event.run before = .ok answers' after ∧
      after.current = before.current ∧ after.root = before.root ∧
      (∀ id, id.index < before.arena.size → after.arena.node? id = before.arena.node? id) ∧
      (config.buildsTree = true → after.consumed = before.consumed ∧
        ∀ events : List Event, ∃ answers final finalAfter,
          events.mapM Event.run before = .ok answers final ∧
          events.mapM Event.run after =
            .ok (answers.map (·.map (.shift before.arena.size offers.length))) finalAfter ∧
          final.Mimics (.shift before.arena.size offers.length) finalAfter ∧
          ∀ id, finalAfter.arena.stop? (id.shift before.arena.size offers.length) =
            final.arena.stop? id) ∧
      (config.buildsTree = false → after.arena = before.arena ∧
        after.consumed = (offers.map Prod.snd).reverse ++ before.consumed) := by
  obtain ⟨_, _, done, folded, sound⟩ := (start_sound config tracer).run past
  cases reached.symm.trans done
  obtain ⟨top, isCurrent⟩ := Option.isSome_iff_exists.mp isOpen
  obtain ⟨answers', after, tried, triedFold, soundAfter⟩ := sound.run (trial offers)
  cases buildsTree : config.buildsTree with
  | true =>
    have builds : before.buildsTree = true := by
      rw [folded, foldl_next_buildsTree]
      exact buildsTree
    obtain ⟨restored, consumed⟩ := sound.restored_trial builds isCurrent offers
    rw [← triedFold] at restored consumed
    have mimics := restored.mimics sound consumed
    refine ⟨answers', after, tried, restored.current, restored.root, restored.nodes,
      fun _ => ⟨consumed, fun events => ?_⟩, nofun⟩
    obtain ⟨answers, final, finalAfter, later, laterAfter, mimicsLater⟩ :=
      mimics.run sound soundAfter events
    exact ⟨answers, final, finalAfter, later, laterAfter, mimicsLater, mimicsLater.arena.stop?⟩
  | false =>
    have bare : before.Bare := folded ▸ (start_bare config tracer buildsTree).foldl past
    obtain ⟨tracerAfter, kept⟩ := bare.trial_eq offers
    rw [← triedFold] at kept
    subst kept
    exact ⟨answers', _, tried, rfl, rfl, fun _ _ => rfl, nofun, fun _ => ⟨rfl, rfl⟩⟩

/-- A rule in the root, with a label and a token. -/
def nestedMatch : List Event :=
  [.enter 0 none (.ofType 4 0), .consume (.ofType 4 0), .enter 1 (some 7) (.ofType 5 1), .alt 2,
    .consume (.ofType 5 1)]

/-- A token that is consumed a second time is taken back, as is one that is skipped after it. -/
theorem trial_in_nestedMatch :
    ∃ answers before answers' after,
      nestedMatch.mapM Event.run (start .default ()) = .ok answers before ∧
      before.current.isSome ∧
      (trial [(.terminal, .ofType 5 1), (.error, .ofType 6 2)]).mapM Event.run before =
        .ok answers' after ∧
      after.consumed = [.ofType 5 1, .ofType 4 0] ∧
      ∃ answers final, [Event.exit, Event.exit].mapM Event.run after = .ok answers final ∧
        final.arena.stop? ⟨0⟩ = some (.ofType 5 1) := by
  have consumed : (match nestedMatch.mapM Event.run (start .default ()) with
    | .ok _ before => some (before.current, before.arena.size, before.consumed)
    | .error _ _ => none) = some (some ⟨3⟩, 5, [.ofType 5 1, .ofType 4 0]) := by decide +kernel
  have stop : (match (nestedMatch ++ [Event.exit, Event.exit]).mapM Event.run
      (start .default ()) with
    | .ok _ final => final.arena.stop? ⟨0⟩
    | .error _ _ => none) = some (.ofType 5 1) := by decide +kernel
  obtain ⟨answers, before, done, -, -⟩ := (start_sound .default ()).run nestedMatch
  rw [done] at consumed
  simp only [Option.some.injEq, Prod.mk.injEq] at consumed
  obtain ⟨isCurrent, size, consumed⟩ := consumed
  have isOpen : before.current.isSome := by rw [isCurrent]; rfl
  obtain ⟨answers', after, tried, -, -, -, undone, -⟩ := run_trial .default () nestedMatch done
    isOpen [(.terminal, .ofType 5 1), (.error, .ofType 6 2)]
  obtain ⟨same, goesOn⟩ := undone rfl
  obtain ⟨later, final, finalAfter, laterDone, laterAfter, -, stops⟩ := goesOn [.exit, .exit]
  have stopped := stops ⟨0⟩
  rw [NodeId.shift_of_lt (by rw [size]; decide)] at stopped
  have ran : (nestedMatch ++ [Event.exit, Event.exit]).mapM Event.run (start .default ()) =
      .ok (answers ++ later) final := by
    rw [List.mapM_append, bind_of_ok done, bind_of_ok laterDone]
    rfl
  rw [ran] at stop
  exact ⟨answers, before, answers', after, done, isOpen, tried, same.trans consumed, _, finalAfter,
    laterAfter, stopped.trans stop⟩

/-- The stop of a context after a run that builds no tree. -/
def stopWithoutTree (events : List Event) (id : NodeId) : Option Token :=
  let stop : Build Unit (Option Token) := do
    discard (events.mapM Event.run)
    return (← get).arena.stop? id
  (stop.run' (start ⟨false, .brief, .off⟩ ())).join

/-- Without a tree, a token that has been taken back becomes the stop of the rule around it. -/
theorem stop_of_token_taken_back :
    stopWithoutTree [.enter 0 none (.ofType 4 0), .consume (.ofType 4 0), .exit] ⟨0⟩ =
        some (.ofType 4 0) ∧
      stopWithoutTree ([.enter 0 none (.ofType 4 0), .consume (.ofType 4 0)] ++
        trial [(.terminal, .ofType 5 1)] ++ [.exit]) ⟨0⟩ = some (.ofType 5 1) := by
  decide +kernel

end Recognizer.Builder
