import Recognizer.Proofs.Builder.Stack
import Recognizer.Proofs.Tree.Yield

/-!
# The tree reads what was consumed

While an activation is open, the open contexts are the rightmost branch of the tree (`Reads`), so
that what is consumed is appended to what the tree yields, and what is taken back was the end of it.
-/

namespace Recognizer.Builder

open Recognizer.Tree (Arena Context LeafKind Node NodeId Spine Yields)

variable {τ : Type} {builder : Builder τ} {top : NodeId} {outers : List NodeId}

/-- The open contexts are the rightmost branch of the tree, and the leaves of the tree have the
consumed tokens: some stand before the innermost context, the others below it. -/
structure Reads (builder : Builder τ) (top : NodeId) (outers : List NodeId) : Prop where
  sound : builder.Sound
  mirrors : builder.Mirrors (top :: outers)
  bottom : builder.root = (top :: outers).getLast?
  builds : builder.buildsTree = true
  tokens : ∃ before inner, Spine builder.arena (top :: outers) top outers before ∧
    Yields builder.arena (top :: outers) (builder.arena.children top) inner ∧
      builder.consumed.reverse = before ++ inner

namespace Reads

theorem current (reads : builder.Reads top outers) : builder.current = some top :=
  reads.mirrors.current

theorem isContext (reads : builder.Reads top outers) : builder.arena.IsContext top :=
  reads.sound.current_context reads.current

theorem top_notMem (reads : builder.Reads top outers) : top ∉ outers :=
  (List.nodup_cons.mp (reads.mirrors.nodup reads.sound)).1

/-- The whole tree yields what was consumed. -/
theorem yields_root (reads : builder.Reads top outers) :
    ∃ root, builder.root = some root ∧
      Yields builder.arena [] [root] builder.consumed.reverse := by
  obtain ⟨before, inner, spine, yields, consumed⟩ := reads.tokens
  have anywhere : ∀ id : NodeId, id.index < builder.arena.size → id ∉ top :: outers → id ∉ [] :=
    fun _ _ _ => List.not_mem_nil
  have untouched : builder.arena.Untouched builder.arena (top :: outers) := .refl _
  have spineAnywhere : Spine builder.arena [] top outers before :=
    spine.transfer untouched (fun _ _ => rfl) anywhere
  have topYields : Yields builder.arena [] [top] inner :=
    .of_children List.not_mem_nil reads.isContext (yields.transfer untouched anywhere)
  have isRoot := reads.bottom
  rw [List.getLast?_eq_some_getLast (List.cons_ne_nil top outers)] at isRoot
  refine ⟨_, isRoot, ?_⟩
  rw [consumed]
  exact spineAnywhere.yields_bottom topYields (List.getLast?_eq_some_getLast _)

/-- What stands before the top stays that when a change touches the top only. -/
theorem spine_transfer (reads : builder.Reads top outers) {before : List Token}
    (spine : Spine builder.arena (top :: outers) top outers before) {after : Arena}
    (untouched : builder.arena.Untouched after [top]) {avoid : List NodeId}
    (outside : ∀ id, id.index < builder.arena.size → id ∉ top :: outers → id ∉ avoid) :
    Spine after avoid top outers before := by
  refine spine.transfer (untouched.mono (by simp)) (fun outer member => ?_) outside
  have other : outer ∉ [top] := by
    intro same
    rw [List.mem_singleton] at same
    exact reads.top_notMem (same ▸ member)
  have inside := (reads.mirrors.path.isContext outer (List.mem_cons_of_mem top member)).lt_size
  exact (untouched outer inside other).2.2.1

theorem yields_transfer {avoid ids : List NodeId} {tokens : List Token} {after : Arena}
    (yields : Yields builder.arena (top :: outers) ids tokens)
    (untouched : builder.arena.Untouched after [top])
    (outside : ∀ id, id.index < builder.arena.size → id ∉ top :: outers → id ∉ avoid) :
    Yields after avoid ids tokens :=
  yields.transfer (untouched.mono (by simp)) outside

/-! ## A new last child of the top -/

theorem grow_eq (reads : builder.Reads top outers) (node : Node) :
    builder.grow builder.current node =
      (builder.arena.push node).append top builder.arena.nextId := by
  rw [reads.current]
  exact grow_listed reads.builds top node

theorem sprout_eq (reads : builder.Reads top outers) (kind : LeafKind) (token : Token) :
    builder.sprout kind token =
      (builder.arena.push (.leaf ⟨kind, token, top⟩)).append top builder.arena.nextId :=
  sprout_listed reads.builds reads.current kind token

theorem children_grown (reads : builder.Reads top outers) (node : Node) :
    ((builder.arena.push node).append top builder.arena.nextId).children top =
      builder.arena.children top ++ [builder.arena.nextId] :=
  Arena.children_push_append reads.isContext node

theorem untouched_grown (builder : Builder τ) (top : NodeId) (node : Node) :
    builder.arena.Untouched ((builder.arena.push node).append top builder.arena.nextId) [top] :=
  (Arena.Untouched.push _ node).trans (.append _ _ (List.mem_singleton_self top))

theorem nextId_notMem (reads : builder.Reads top outers) :
    builder.arena.nextId ∉ top :: outers := by
  intro member
  exact (reads.mirrors.path.isContext _ member).ne_nextId rfl

end Reads

/-! ## Events -/

variable [Tracer τ]

/-- An exit changes the span of a context only. -/
theorem untouched_exit (builder : Builder τ) :
    builder.arena.Untouched (Event.exit.next builder).arena [] := by
  unfold Event.next
  rcases builder.current with - | id
  · exact .refl _
  · dsimp only
    split
    · exact .modify_onContext _ id fun _ _ => rfl
    · exact .refl _

namespace Reads

/-- While an activation stays open, the root stays the bottom of the branch. -/
theorem bottom_next (reads : builder.Reads top outers) {event : Event} {answer : Option NodeId}
    {id : NodeId} {above : List NodeId}
    (step : StackStep (top :: outers) event answer (id :: above))
    (answered : answer = event.answer builder) :
    (event.next builder).root = (id :: above).getLast? := by
  have bottom :=
    reads.mirrors.root_next reads.sound reads.bottom (List.cons_ne_nil _ _) step answered
  rw [if_neg (List.cons_ne_nil _ _)] at bottom
  exact bottom

theorem enter (reads : builder.Reads top outers) (rule : RuleIndex)
    (invokingState : Option StateId) (start : Token) :
    ((Event.enter rule invokingState start).next builder).Reads builder.arena.nextId
      (top :: outers) := by
  obtain ⟨before, inner, spine, yields, consumed⟩ := reads.tokens
  have mirrors := reads.mirrors.enter_step rule invokingState start
  have bottom := reads.bottom_next (.enter _ builder.arena.nextId rule invokingState start) rfl
  have grown := reads.grow_eq (.context (opened builder.current invokingState rule start))
  have untouched := untouched_grown builder top
    (.context (opened builder.current invokingState rule start))
  have outside (id : NodeId) (inside : id.index < builder.arena.size) (out : id ∉ top :: outers) :
      id ∉ builder.arena.nextId :: top :: outers :=
    List.not_mem_cons_of_ne_of_not_mem (Arena.ne_nextId_of_lt_size inside) out
  have childless : (builder.grow builder.current
      (.context (opened builder.current invokingState rule start))).children
        builder.arena.nextId = [] := by
    rw [grown, Arena.children_append, if_neg fun both => reads.isContext.ne_nextId both.1.symm,
      Arena.children_push, if_pos rfl]
    rfl
  refine ⟨reads.sound.next _, mirrors, bottom, reads.builds, before ++ inner, [], ?_, ?_, ?_⟩
  · change Spine (builder.grow builder.current _) _ _ _ _
    rw [grown]
    exact .nest (reads.spine_transfer spine untouched outside) (reads.children_grown _)
      (yields_transfer yields untouched outside)
  · change Yields (builder.grow builder.current _) _ (Arena.children (builder.grow _ _) _) _
    rw [childless]
    exact .nil
  · rw [List.append_nil]
    exact consumed

theorem recorded (reads : builder.Reads top outers) (kind : LeafKind) (hook : Hook)
    (token : Token) : (builder.recorded kind hook token).Reads top outers := by
  obtain ⟨before, inner, spine, yields, consumed⟩ := reads.tokens
  have mirrors : (builder.recorded kind hook token).Mirrors (top :: outers) :=
    reads.mirrors.keeps (builder.sprout_keeps kind token) rfl
  have untouched := untouched_grown builder top (.leaf ⟨kind, token, top⟩)
  have isToken : ((builder.arena.push (.leaf ⟨kind, token, top⟩)).append top
      builder.arena.nextId).token? builder.arena.nextId = some token := by
    rw [Arena.append, Arena.token?_modify_onContext, Arena.token?_push, if_pos rfl]
    rfl
  have outside : ∀ id : NodeId, id.index < builder.arena.size → id ∉ top :: outers →
      id ∉ top :: outers := fun _ _ out => out
  refine ⟨reads.sound.recorded kind hook token, mirrors, reads.bottom, reads.builds, before,
    inner ++ [token], ?_, ?_, ?_⟩
  · change Spine (builder.sprout kind token) _ _ _ _
    rw [reads.sprout_eq]
    exact reads.spine_transfer spine untouched outside
  · change Yields (builder.sprout kind token) _ ((builder.sprout kind token).children top) _
    rw [reads.sprout_eq, reads.children_grown]
    exact (yields_transfer yields untouched outside).append
      (.of_token reads.nextId_notMem isToken)
  · change (token :: builder.consumed).reverse = _
    rw [List.reverse_cons, consumed, List.append_assoc]

omit [Tracer τ] in
/-- The newest leaf below the top has the newest of the consumed tokens. -/
theorem newest_consumed (reads : builder.Reads top outers) {child : NodeId} {older : List NodeId}
    (children : builder.arena.children top = older ++ [child])
    (leaf : ¬ builder.arena.IsContext child) :
    ∃ before inner token, Spine builder.arena (top :: outers) top outers before ∧
      Yields builder.arena (top :: outers) older inner ∧ builder.arena.token? child = some token ∧
        builder.consumed = token :: (before ++ inner).reverse := by
  obtain ⟨before, all, spine, yields, consumed⟩ := reads.tokens
  rw [children] at yields
  obtain ⟨inner, last, rfl, olderYields, childYields⟩ := yields.of_append
  cases childYields with
  | context _ isContext _ _ => exact absurd isContext leaf
  | leaf _ found rest =>
    cases rest
    rw [← List.append_assoc] at consumed
    exact ⟨before, inner, _, spine, olderYields, found, List.reverse_eq_concat.mp consumed⟩

theorem retract (reads : builder.Reads top outers)
    (leaf : ∀ child ∈ (builder.arena.children top).getLast?, ¬ builder.arena.IsContext child) :
    (Event.retract.next builder).Reads top outers := by
  have arena : (Event.retract.next builder).arena = builder.arena.dropLast top := by
    simp only [Event.next, reads.current]
  have taken : (Event.retract.next builder).consumed = unconsumed builder.consumed
      ((builder.arena.children top).getLast?.bind builder.arena.token?) := by
    simp only [Event.next, reads.current]
  have current : (Event.retract.next builder).current = builder.current := by
    simp only [Event.next, reads.current]
  have builds : (Event.retract.next builder).buildsTree = true :=
    (Event.next_buildsTree builder .retract).trans reads.builds
  have mirrors : (Event.retract.next builder).Mirrors (top :: outers) := by
    refine reads.mirrors.keeps ?_ current
    rw [arena]
    exact .dropLast _ top
  have untouched : builder.arena.Untouched (builder.arena.dropLast top) [top] :=
    .dropLast _ (List.mem_singleton_self top)
  have outside : ∀ id : NodeId, id.index < builder.arena.size → id ∉ top :: outers →
      id ∉ top :: outers := fun _ _ out => out
  suffices tokens : ∃ before inner, Spine builder.arena (top :: outers) top outers before ∧
      Yields builder.arena (top :: outers) (builder.arena.children top).dropLast inner ∧
        (Event.retract.next builder).consumed.reverse = before ++ inner by
    obtain ⟨before, inner, spine, yields, consumed⟩ := tokens
    refine ⟨reads.sound.next _, mirrors, root_retract.trans reads.bottom, builds, before, inner,
      ?_, ?_, consumed⟩
    · rw [arena]
      exact reads.spine_transfer spine untouched outside
    · rw [arena, Arena.children_dropLast, if_pos rfl]
      exact yields_transfer yields untouched outside
  rw [taken]
  rcases last : (builder.arena.children top).getLast? with - | child
  · obtain ⟨before, inner, spine, yields, consumed⟩ := reads.tokens
    have childless : builder.arena.children top = [] := List.getLast?_eq_none_iff.mp last
    refine ⟨before, inner, spine, ?_, consumed⟩
    rw [childless] at yields ⊢
    exact yields
  · obtain ⟨older, children⟩ := List.getLast?_eq_some_iff.mp last
    obtain ⟨before, inner, token, spine, yields, found, consumed⟩ :=
      reads.newest_consumed children (leaf child last)
    refine ⟨before, inner, spine, ?_, ?_⟩
    · rw [children, List.dropLast_concat]
      exact yields
    · have newest : unconsumed builder.consumed (some token) = builder.consumed.tail := by
        simp [unconsumed, consumed]
      rw [Option.bind_some, found, newest, consumed, List.tail_cons, List.reverse_reverse]

/-- An activation that is closed is a finished subtree of the one around it. -/
theorem exit {outer : NodeId} (reads : builder.Reads top (outer :: outers)) :
    (Event.exit.next builder).Reads outer outers := by
  obtain ⟨allBefore, inner, spine, yields, consumed⟩ := reads.tokens
  have mirrors : (Event.exit.next builder).Mirrors (outer :: outers) := reads.mirrors.exit_step
  have bottom := reads.bottom_next (.exit top (outer :: outers)) reads.current.symm
  have builds := (Event.next_buildsTree builder .exit).trans reads.builds
  have same : (Event.exit.next builder).consumed = builder.consumed := by
    simp only [Event.next, reads.current]
  have untouched : builder.arena.Untouched (Event.exit.next builder).arena
      (top :: outer :: outers) :=
    (untouched_exit builder).mono (List.nil_subset _)
  have sameChildren (id : NodeId) (isContext : builder.arena.IsContext id) :
      (Event.exit.next builder).arena.children id = builder.arena.children id :=
    (untouched_exit builder id isContext.lt_size List.not_mem_nil).2.2.1
  have outside (id : NodeId) (_ : id.index < builder.arena.size)
      (out : id ∉ top :: outer :: outers) : id ∉ outer :: outers :=
    List.not_mem_of_not_mem_cons out
  cases spine with
  | @nest _ _ _ closed before tokens spine last closedYields =>
    have finished : Yields (Event.exit.next builder).arena (outer :: outers) [top] inner := by
      have isContext := (untouched_exit builder top reads.isContext.lt_size List.not_mem_nil).2.2.2
      refine .of_children reads.top_notMem (isContext reads.isContext) ?_
      rw [sameChildren top reads.isContext]
      exact yields.transfer untouched outside
    refine ⟨reads.sound.next _, mirrors, bottom, builds, before, tokens ++ inner, ?_, ?_, ?_⟩
    · refine spine.transfer untouched (fun above member => sameChildren above ?_) outside
      exact reads.mirrors.path.isContext above
        (List.mem_cons_of_mem top (List.mem_cons_of_mem outer member))
    · rw [sameChildren outer (reads.mirrors.path.isContext outer (by simp)), last]
      exact (closedYields.transfer untouched outside).append finished
    · rw [same, consumed, List.append_assoc]

/-- The tree is complete when its root is closed. -/
theorem exit_root (reads : builder.Reads top []) :
    ∃ root, (Event.exit.next builder).root = some root ∧
      Yields (Event.exit.next builder).arena [] [root]
        (Event.exit.next builder).consumed.reverse := by
  obtain ⟨root, isRoot, yields⟩ := reads.yields_root
  have same : (Event.exit.next builder).consumed = builder.consumed := by
    simp only [Event.next, reads.current]
  refine ⟨root, root_exit.trans isRoot, ?_⟩
  rw [same]
  exact yields.transfer (untouched_exit builder) fun _ _ out => out

omit [Tracer τ] in
theorem children_relabel_nextId (reads : builder.Reads top outers) {context : Context}
    (found : builder.arena.context? top = some context) (number : UInt32) :
    (relabel builder.arena top context number).children builder.arena.nextId = [] := by
  have link := Arena.parent?_of_context? found
  have pushed : (builder.arena.push (.context (labelled context number))).children
      builder.arena.nextId = [] := by
    rw [Arena.children_push, if_pos rfl]
    rfl
  unfold relabel
  split
  · rename_i outer linked
    have older := (reads.sound.forest.parent_older (link.trans linked)).2.ne_nextId
    split
    · rw [Arena.children_append, if_neg fun both => older both.1.symm, Arena.children_dropLast,
        if_neg older.symm, pushed]
    · exact pushed
  · exact pushed

omit [Tracer τ] in
/-- The innermost context gives up its place as a last child to the one that relabels it. -/
theorem relabel_spine (reads : builder.Reads top outers) {context : Context}
    (found : builder.arena.context? top = some context) (number : UInt32) {before : List Token}
    (spine : Spine builder.arena (top :: outers) top outers before) :
    Spine (relabel builder.arena top context number) (builder.arena.nextId :: outers)
      builder.arena.nextId outers before := by
  have parent : context.parent = outers.head? :=
    (Arena.parent?_of_context? found).symm.trans reads.mirrors.path.follows.1
  have outside (id : NodeId) (inside : id.index < builder.arena.size) (out : id ∉ top :: outers) :
      id ∉ builder.arena.nextId :: outers :=
    List.not_mem_cons_of_ne_of_not_mem (Arena.ne_nextId_of_lt_size inside)
      (List.not_mem_of_not_mem_cons out)
  cases spine with
  | root => exact .root _
  | @nest _ outer above closed before tokens spine last yields =>
    have isLast : (builder.arena.children outer).getLast? = some top := by
      rw [last, List.getLast?_concat]
    have isContext : builder.arena.IsContext outer := reads.mirrors.path.isContext outer (by simp)
    have untouched :
        builder.arena.Untouched (relabel builder.arena top context number) [outer] := by
      rw [relabel_of_last parent isLast]
      have listed := List.mem_singleton_self outer
      exact ((Arena.Untouched.push _ _).trans (.dropLast _ listed)).trans (.append _ _ listed)
    have children : (relabel builder.arena top context number).children outer =
        closed ++ [builder.arena.nextId] := by
      rw [children_relabel parent isContext isLast, last, List.dropLast_concat]
    have distinct := reads.mirrors.nodup reads.sound
    have sub : [outer] ⊆ top :: outer :: above := by simp
    refine .nest (spine.transfer (untouched.mono sub) (fun id member => ?_) outside) children
      (yields.transfer (untouched.mono sub) outside)
    have other : id ∉ [outer] := by
      intro same
      rw [List.mem_singleton] at same
      subst same
      exact (List.nodup_cons.mp (List.nodup_cons.mp distinct).2).1 member
    have isContextToo : builder.arena.IsContext id :=
      reads.mirrors.path.isContext id (List.mem_cons_of_mem _ (List.mem_cons_of_mem _ member))
    exact (untouched id isContextToo.lt_size other).2.2.1

theorem alt (reads : builder.Reads top outers) (childless : builder.arena.children top = [])
    (number : UInt32) :
    ((Event.alt number).next builder).Reads builder.arena.nextId outers := by
  obtain ⟨before, inner, spine, yields, consumed⟩ := reads.tokens
  obtain ⟨context, found⟩ := Option.isSome_iff_exists.mp reads.isContext
  have mirrors := reads.mirrors.alt_step rfl number
  have answered : some builder.arena.nextId = (Event.alt number).answer builder := by
    rw [Event.answer, reads.current]
    rfl
  have bottom := reads.bottom_next (.alt top builder.arena.nextId outers number) answered
  have builds := (Event.next_buildsTree builder (.alt number)).trans reads.builds
  have arena : ((Event.alt number).next builder).arena =
      relabel builder.arena top context number := by
    rw [Event.next_alt reads.current found]
  have same : ((Event.alt number).next builder).consumed = builder.consumed := by
    rw [Event.next_alt reads.current found]
  rw [childless] at yields
  cases yields
  refine ⟨reads.sound.next _, mirrors, bottom, builds, before, [], ?_, ?_, ?_⟩
  · rw [arena]
    exact reads.relabel_spine found number spine
  · rw [arena, reads.children_relabel_nextId found number]
    exact .nil
  · rw [same]
    exact consumed

end Reads

/-! ## Runs -/

/-- The condition on an event under which the tree keeps up with what is consumed: an activation is
open, a context is relabelled before it has children, and what is taken back is a leaf. -/
def Event.Careful (builder : Builder τ) (event : Event) : Prop :=
  builder.current.isSome ∧
    match event with
    | alt _ => ∀ id ∈ builder.current, builder.arena.children id = []
    | retract => ∀ id ∈ builder.current, ∀ child ∈ (builder.arena.children id).getLast?,
        ¬ builder.arena.IsContext child
    | enter _ _ _ | exit | consume _ | recover _ => True

instance (builder : Builder τ) (event : Event) : Decidable (event.Careful builder) :=
  @instDecidableAnd _ _ inferInstance <|
    match event with
    | .alt _ => inferInstanceAs (Decidable (∀ id ∈ builder.current, builder.arena.children id = []))
    | .retract => inferInstanceAs (Decidable (∀ id ∈ builder.current,
        ∀ child ∈ (builder.arena.children id).getLast?, ¬ builder.arena.IsContext child))
    | .enter _ _ _ | .exit | .consume _ | .recover _ => isTrue trivial

/-- After an event the tree reads what was consumed; either an activation is open still, or none is.
-/
theorem Reads.step (reads : builder.Reads top outers) {event : Event}
    (careful : event.Careful builder) :
    (∃ id above, (event.next builder).Reads id above) ∨
      (event.next builder).current = none ∧ ∃ root, (event.next builder).root = some root ∧
        Yields (event.next builder).arena [] [root] (event.next builder).consumed.reverse := by
  cases event with
  | enter rule invokingState start => exact .inl ⟨_, _, reads.enter rule invokingState start⟩
  | exit =>
    rcases outers with - | ⟨outer, above⟩
    · exact .inr ⟨reads.mirrors.exit_step.current, reads.exit_root⟩
    · exact .inl ⟨_, _, reads.exit⟩
  | alt number => exact .inl ⟨_, _, reads.alt (careful.2 top reads.current) number⟩
  | consume token => exact .inl ⟨_, _, reads.recorded .terminal (.consume token) token⟩
  | recover token => exact .inl ⟨_, _, reads.recorded .error (.error token) token⟩
  | retract => exact .inl ⟨_, _, reads.retract (careful.2 top reads.current)⟩

theorem Reads.run (reads : builder.Reads top outers) {events : List Event}
    (careful : Throughout Event.Careful builder events) :
    ∃ answers after root, events.mapM Event.run builder = .ok answers after ∧ after.Sound ∧
      after.root = some root ∧ Yields after.arena [] [root] after.consumed.reverse := by
  induction events generalizing builder top outers with
  | nil =>
    obtain ⟨root, isRoot, yields⟩ := reads.yields_root
    exact ⟨[], builder, root, rfl, reads.sound, isRoot, yields⟩
  | cons event events ih =>
    obtain ⟨carefulNow, carefulLater⟩ := reads.sound.throughout_cons.mp careful
    have sound := reads.sound.next event
    rcases reads.step carefulNow with ⟨id, above, readsNext⟩ | ⟨closed, root, isRoot, yields⟩
    · obtain ⟨answers, after, root, later, rest⟩ := ih readsNext carefulLater
      exact ⟨_, after, root, reads.sound.mapM_cons later, rest⟩
    · -- Nothing may follow the end of the root.
      rcases events with - | ⟨event', events⟩
      · exact ⟨_, _, root, reads.sound.mapM_cons rfl, sound, isRoot, yields⟩
      · have isOpen := (sound.throughout_cons.mp carefulLater).1.1
        rw [closed] at isOpen
        cases isOpen

/-- The first activation is a tree without leaves. -/
theorem Reads.first (config : Config) (tracer : τ) (builds : config.buildsTree = true)
    (rule : RuleIndex) (invokingState : Option StateId) (first : Token) :
    ((Event.enter rule invokingState first).next (start config tracer)).Reads ⟨0⟩ [] := by
  have sound := start_sound config tracer
  have mirrors := start_mirrors config tracer
  refine ⟨sound.next _, mirrors.enter_step rule invokingState first, rfl, builds, [], [],
    .root _, ?_, rfl⟩
  exact .nil

/-- If trees are built, a run that begins with the root, whose other events find an activation open,
and which relabels no context that has children and takes no context back, loses no token: the
leaves below the root have the consumed tokens, each once and in order, and the text of the root is
that of these tokens. Since every beginning of such a run is such a run, this holds after each
event. -/
theorem leaves_of_root (config : Config) (tracer : τ) (builds : config.buildsTree = true)
    (rule : RuleIndex) (invokingState : Option StateId) (first : Token) (events : List Event)
    (careful : ∀ answer opened,
      (Event.enter rule invokingState first).run (start config tracer) = .ok answer opened →
        Throughout Event.Careful opened events) :
    ∃ answers after root,
      (Event.enter rule invokingState first :: events).mapM Event.run (start config tracer) =
        .ok answers after ∧
      after.root = some root ∧
      (∀ tokens, Yields after.arena [] [root] tokens ↔ tokens = after.consumed.reverse) ∧
      after.arena.text? root =
        some (String.join (after.consumed.reverse.map Token.displayText)) := by
  have done := Event.run_eq (start_sound config tracer) (.enter rule invokingState first)
  have reads := Reads.first config tracer builds rule invokingState first
  obtain ⟨answers, after, root, later, sound, isRoot, yields⟩ := reads.run (careful _ _ done)
  refine ⟨_, after, root, (start_sound config tracer).mapM_cons later, isRoot, fun tokens => ?_, ?_⟩
  · constructor
    · exact fun others => others.unique yields
    · intro same
      rw [same]
      exact yields
  · exact yields.text?_eq (sound.forest.endsBelow root)

/-- A root that is relabelled, a rule in it, and a token that is taken back after its twin. -/
def relabelledRoot : List Event :=
  [.alt 2, .consume (.ofType 4 0), .enter 1 (some 7) (.ofType 5 1), .recover (.ofType 5 1),
    .consume (.ofType 5 1), .retract, .exit, .consume (.ofType 6 2)]

theorem leaves_of_relabelled_root :
    Throughout Event.Careful ((Event.enter 0 none (.ofType 4 0)).next (start .default ()))
        relabelledRoot ∧
      ∃ answers after root,
        (Event.enter 0 none (.ofType 4 0) :: relabelledRoot).mapM Event.run (start .default ()) =
          .ok answers after ∧
        after.root = some root ∧
        Yields after.arena [] [root] [.ofType 4 0, .ofType 5 1, .ofType 6 2] := by
  have careful : Throughout Event.Careful
      ((Event.enter 0 none (.ofType 4 0)).next (start .default ())) relabelledRoot := by
    decide +kernel
  have read : (match (Event.enter 0 none (.ofType 4 0) :: relabelledRoot).mapM Event.run
      (start .default ()) with
    | .ok _ after => after.consumed.reverse
    | .error _ _ => []) = [.ofType 4 0, .ofType 5 1, .ofType 6 2] := by decide +kernel
  obtain ⟨answers, after, root, done, isRoot, exactly, -⟩ :=
    leaves_of_root .default () rfl 0 none (.ofType 4 0) relabelledRoot (by
      intro answer opened entered
      cases (Event.run_eq (start_sound .default ()) _).symm.trans entered
      exact careful)
  rw [done] at read
  exact ⟨careful, answers, after, root, done, isRoot, (exactly _).mpr read.symm⟩

end Recognizer.Builder
