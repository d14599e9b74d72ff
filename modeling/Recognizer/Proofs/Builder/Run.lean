import Recognizer.Proofs.Builder.Step

/-!
# Runs of a construction

A new builder is sound, and a sound builder carries out every event and stays sound. So a run of
events is never refused, whatever the events are, and it leaves a forest.

What an event does to the arena is made of revisions that keep forests and that keep every context
with its parent (`Arena.Keeps`), so that the current context and the root stay what they are.
-/

namespace Recognizer.Builder

open Recognizer.Tree (Arena Context LeafKind Node NodeId)

variable {τ : Type} {builder : Builder τ}

theorem start_sound (config : Config) (tracer : τ) : (start config tracer).Sound where
  forest := .empty
  current_context isCurrent := by cases isCurrent
  root_context isRoot := by cases isRoot
  root_parentless isRoot := by cases isRoot

/-! ## The arena after an event -/

/-- A new node is never displaced by being listed. -/
theorem grow_relisted (builder : Builder τ) (parent : Option NodeId) (node : Node) :
    (builder.arena.push node).Relisted (builder.grow parent node) := by
  unfold grow
  split
  · exact .append _ _ _
  · exact .refl _

theorem grow_keeps_push (builder : Builder τ) (parent : Option NodeId) (node : Node) :
    (builder.arena.push node).Keeps (builder.grow parent node) :=
  (builder.grow_relisted parent node).keeps

theorem grow_keeps (builder : Builder τ) (parent : Option NodeId) (node : Node) :
    builder.arena.Keeps (builder.grow parent node) :=
  (Arena.Keeps.push _ node).trans (builder.grow_keeps_push parent node)

theorem relabel_relisted (arena : Arena) (generic : NodeId) (context : Context) (number : UInt32) :
    (arena.push (.context (labelled context number))).Relisted
      (relabel arena generic context number) := by
  unfold relabel
  split
  · split
    · exact (Arena.Relisted.dropLast _ _).trans (.append _ _ _)
    · exact .refl _
  · exact .refl _

theorem relabel_keeps_push (arena : Arena) (generic : NodeId) (context : Context)
    (number : UInt32) :
    (arena.push (.context (labelled context number))).Keeps
      (relabel arena generic context number) :=
  (relabel_relisted arena generic context number).keeps

theorem relabel_keeps (arena : Arena) (generic : NodeId) (context : Context) (number : UInt32) :
    arena.Keeps (relabel arena generic context number) :=
  (Arena.Keeps.push _ _).trans (relabel_keeps_push arena generic context number)

theorem relabel_of_last {arena : Arena} {generic parent : NodeId} {context : Context}
    (linked : context.parent = some parent)
    (last : (arena.children parent).getLast? = some generic) (number : UInt32) :
    relabel arena generic context number =
      ((arena.push (.context (labelled context number))).dropLast parent).append parent
        arena.nextId := by
  simp only [relabel, linked, if_pos last]

/-- The labelled context takes the place of the generic one in the child list. -/
theorem children_relabel {arena : Arena} {generic parent : NodeId} {context : Context}
    (linked : context.parent = some parent) (isContext : arena.IsContext parent)
    (last : (arena.children parent).getLast? = some generic) (number : UInt32) :
    (relabel arena generic context number).children parent =
      (arena.children parent).dropLast ++ [arena.nextId] := by
  have still : ((arena.push (.context (labelled context number))).dropLast parent).IsContext
      parent :=
    Arena.isContext_modify_onContext.mpr (isContext.push _)
  rw [relabel_of_last linked last, Arena.children_append, if_pos ⟨rfl, still⟩,
    Arena.children_dropLast, if_pos rfl, Arena.children_push, if_neg isContext.ne_nextId]

/-- Recording a token makes no context and changes child lists only. -/
theorem sprout_relisted (builder : Builder τ) (kind : LeafKind) (token : Token) :
    builder.arena.Relisted (builder.sprout kind token) := by
  unfold sprout
  split
  · exact (Arena.Relisted.push_leaf _ _).trans (.append _ _ _)
  · exact .refl _

theorem sprout_keeps (builder : Builder τ) (kind : LeafKind) (token : Token) :
    builder.arena.Keeps (builder.sprout kind token) :=
  (builder.sprout_relisted kind token).keeps

theorem Sound.grow_forest (sound : builder.Sound) {node : Node} (childless : node.children = [])
    (linked : node.parent? = builder.current) : (builder.grow builder.current node).Forest := by
  unfold grow
  split
  · rename_i id isCurrent _
    have isContext := sound.current_context isCurrent
    exact sound.forest.push_append childless (linked.trans isCurrent) isContext
  · refine sound.forest.push childless fun above link => ?_
    exact sound.current_context (linked.symm.trans link)

theorem relabel_forest {arena : Arena} (forest : arena.Forest) {generic : NodeId}
    {context : Context} (found : arena.context? generic = some context) (number : UInt32) :
    (relabel arena generic context number).Forest := by
  have isParent {above : NodeId} (linked : context.parent = some above) :
      arena.IsContext above := by
    have link : arena.parent? generic = some above := by
      rw [Arena.parent?_of_context? found]
      exact linked
    exact (forest.parent_older link).2
  have pushed : (arena.push (.context (labelled context number))).Forest :=
    forest.push rfl fun above link => isParent link
  unfold relabel
  split
  · rename_i parent linked
    split
    · refine (pushed.dropLast parent).append ?_ ?_
      · rw [Arena.parent?_dropLast, Arena.parent?_push_nextId]
        exact linked
      · intro x listed
        rw [Arena.children_dropLast, if_pos rfl, Arena.children_push,
          if_neg (isParent linked).ne_nextId] at listed
        exact forest.child_lt_size (List.dropLast_subset _ listed)
    · exact pushed
  · exact pushed

theorem Sound.sprout_forest (sound : builder.Sound) (kind : LeafKind) (token : Token) :
    (builder.sprout kind token).Forest := by
  unfold sprout
  split
  · rename_i id isCurrent _
    exact sound.forest.push_append rfl rfl (sound.current_context isCurrent)
  · exact sound.forest

/-! ## Soundness is kept -/

/-- A builder whose contexts are kept stays sound if its current context and a new root are in
order. -/
theorem Sound.of_keeps (sound : builder.Sound) {after : Builder τ} (forest : after.arena.Forest)
    (keeps : builder.arena.Keeps after.arena)
    (current : ∀ id, after.current = some id → builder.current = some id ∨ after.arena.IsContext id)
    (root : ∀ id, after.root = some id →
      builder.root = some id ∨ after.arena.IsContext id ∧ after.arena.parent? id = none) :
    after.Sound where
  forest := forest
  current_context := by
    intro id isCurrent
    rcases current id isCurrent with old | isContext
    · exact keeps.isContext (sound.current_context old)
    · exact isContext
  root_context := by
    intro id isRoot
    rcases root id isRoot with old | ⟨isContext, -⟩
    · exact keeps.isContext (sound.root_context old)
    · exact isContext
  root_parentless := by
    intro id isRoot
    rcases root id isRoot with old | ⟨-, parentless⟩
    · rw [keeps.parent? (sound.root_context old)]
      exact sound.root_parentless old
    · exact parentless

variable [Tracer τ]

theorem Sound.enter_next (sound : builder.Sound) (rule : RuleIndex) (invokingState : Option StateId)
    (start : Token) : ((Event.enter rule invokingState start).next builder).Sound := by
  have pushed := Arena.isContext_push_nextId builder.arena
    (opened builder.current invokingState rule start)
  have keeps := builder.grow_keeps_push builder.current
    (.context (opened builder.current invokingState rule start))
  have link := (keeps.parent? pushed).trans (Arena.parent?_push_nextId _ _)
  refine sound.of_keeps (sound.grow_forest rfl rfl) (builder.grow_keeps _ _) ?_ ?_
  · intro id isCurrent
    cases isCurrent
    exact .inr (keeps.isContext pushed)
  · intro id isRoot
    change (if _ then _ else _) = _ at isRoot
    split at isRoot
    · rename_i first
      cases isRoot
      exact .inr ⟨keeps.isContext pushed, link.trans (Option.isNone_iff_eq_none.mp first.1)⟩
    · exact .inl isRoot

theorem Sound.exit_next (sound : builder.Sound) : (Event.exit.next builder).Sound := by
  unfold Event.next
  rcases isCurrent : builder.current with - | id
  · exact sound
  · dsimp only
    have isParent (above : NodeId) (link : builder.arena.parent? id = some above) :
        builder.arena.IsContext above :=
      (sound.forest.parent_older link).2
    rcases builder.consumed.head? with - | token
    · refine sound.of_keeps sound.forest (.refl _) ?_ fun _ => .inl
      exact fun above link => .inr (isParent above link)
    · have keeps : builder.arena.Keeps (builder.arena.modify id
          (.onContext fun context => { context with stop := some token })) :=
        .modify_onContext _ _ fun _ => rfl
      refine sound.of_keeps ?_ keeps ?_ fun _ => .inl
      · exact sound.forest.modify_onContext (fun _ => rfl) fun _ => rfl
      · exact fun above link => .inr (keeps.isContext (isParent above link))

theorem Sound.alt_next (sound : builder.Sound) (number : UInt32) :
    ((Event.alt number).next builder).Sound := by
  unfold Event.next
  rcases isCurrent : builder.current with - | generic
  · exact sound
  · dsimp only
    rcases found : builder.arena.context? generic with - | context
    · exact sound
    · have pushed := Arena.isContext_push_nextId builder.arena (labelled context number)
      have keeps := relabel_keeps_push builder.arena generic context number
      have link := (keeps.parent? pushed).trans (Arena.parent?_push_nextId _ _)
      refine sound.of_keeps (relabel_forest sound.forest found number) (relabel_keeps ..) ?_ ?_
      · intro id isCurrent
        cases isCurrent
        exact .inr (keeps.isContext pushed)
      · intro id isRoot
        dsimp only at isRoot
        split at isRoot
        · rename_i wasRoot
          cases isRoot
          refine .inr ⟨keeps.isContext pushed, link.trans ?_⟩
          exact (Arena.parent?_of_context? found).symm.trans (sound.root_parentless wasRoot)
        · exact .inl isRoot

theorem Sound.recorded (sound : builder.Sound) (kind : LeafKind) (hook : Hook) (token : Token) :
    (builder.recorded kind hook token).Sound :=
  sound.of_keeps (sound.sprout_forest kind token) (builder.sprout_keeps kind token)
    (fun _ => .inl) fun _ => .inl

theorem Sound.retract_next (sound : builder.Sound) : (Event.retract.next builder).Sound := by
  unfold Event.next
  rcases isCurrent : builder.current with - | id
  · exact sound
  · refine sound.of_keeps (sound.forest.dropLast id) (.dropLast _ id) ?_ fun _ => .inl
    exact fun _ still => .inl (isCurrent.trans still)

/-- Every event keeps a builder sound. -/
theorem Sound.next (sound : builder.Sound) (event : Event) : (event.next builder).Sound := by
  cases event with
  | enter rule invokingState start => exact sound.enter_next rule invokingState start
  | exit => exact sound.exit_next
  | alt number => exact sound.alt_next number
  | consume token => exact sound.recorded .terminal (.consume token) token
  | recover token => exact sound.recorded .error (.error token) token
  | retract => exact sound.retract_next

/-! ## Runs -/

/-- Every event of a run meets the condition on the builder that it finds. -/
def Throughout (condition : Builder τ → Event → Prop) (builder : Builder τ) : List Event → Prop
  | [] => True
  | event :: events =>
    condition builder event ∧
      match event.run builder with
      | .ok _ after => Throughout condition after events
      | .error _ _ => True

instance Throughout.decide (condition : Builder τ → Event → Prop)
    [∀ builder event, Decidable (condition builder event)] (builder : Builder τ) :
    (events : List Event) → Decidable (Throughout condition builder events)
  | [] => isTrue trivial
  | event :: events =>
    match outcome : event.run builder with
    | .ok _ after =>
      have := Throughout.decide condition after events
      decidable_of_iff (condition builder event ∧ Throughout condition after events)
        (by simp only [Throughout, outcome])
    | .error _ _ =>
      decidable_of_iff (condition builder event) (by simp only [Throughout, outcome, and_true])

theorem Sound.throughout_cons (sound : builder.Sound) {condition : Builder τ → Event → Prop}
    {event : Event} {events : List Event} :
    Throughout condition builder (event :: events) ↔
      condition builder event ∧ Throughout condition (event.next builder) events := by
  simp only [Throughout, Event.run_eq sound]

/-- A run of a sound builder begins with what its first event does. -/
theorem Sound.mapM_cons (sound : builder.Sound) {event : Event} {events : List Event}
    {answers : List (Option NodeId)} {after : Builder τ}
    (later : events.mapM Event.run (event.next builder) = .ok answers after) :
    (event :: events).mapM Event.run builder = .ok (event.answer builder :: answers) after := by
  rw [List.mapM_cons, bind_of_ok (Event.run_eq sound event), bind_of_ok later]
  rfl

/-- Every run of a sound builder succeeds and leaves it sound. -/
theorem Sound.run (sound : builder.Sound) (events : List Event) :
    ∃ answers after, events.mapM Event.run builder = .ok answers after ∧
      after = events.foldl Event.next builder ∧ after.Sound := by
  induction events generalizing builder with
  | nil => exact ⟨[], builder, rfl, rfl, sound⟩
  | cons event events ih =>
    obtain ⟨answers, after, done, reached, soundAfter⟩ := ih (sound.next event)
    exact ⟨event.answer builder :: answers, after, sound.mapM_cons done, reached, soundAfter⟩

theorem foldl_next_buildsTree (builder : Builder τ) (events : List Event) :
    (events.foldl Event.next builder).buildsTree = builder.buildsTree := by
  induction events generalizing builder with
  | nil => rfl
  | cons event events ih => exact (ih _).trans (event.next_buildsTree builder)

/-- No event is ever refused. A run does what its events do one after the other, and what it
leaves is a forest: parents are older contexts, a child list names children of its owner from the
oldest to the youngest, so that no node is listed twice, and the root has no parent. Every
traversal of it ends. Since every beginning of a run is a run, all of this holds after each event.
-/
theorem run_forest (config : Config) (tracer : τ) (events : List Event) :
    ∃ answers after, events.mapM Event.run (start config tracer) = .ok answers after ∧
      after = events.foldl Event.next (start config tracer) ∧
      (∀ id above, after.arena.parent? id = some above →
        above.index < id.index ∧ after.arena.IsContext above) ∧
      (∀ id child, child ∈ after.arena.children id →
        child.index < after.arena.size ∧ after.arena.parent? child = some id) ∧
      (∀ id, (after.arena.children id).Pairwise fun x y => x.index < y.index) ∧
      (∀ id other child, child ∈ after.arena.children id → child ∈ after.arena.children other →
        id = other) ∧
      (∀ id, (after.arena.children id).Nodup) ∧
      (∀ id, after.current = some id → after.arena.IsContext id) ∧
      (∀ id, after.root = some id →
        after.arena.IsContext id ∧ after.arena.parent? id = none) ∧
      ∀ names id, (after.arena.depth? id).isSome ∧ (after.arena.text? id).isSome ∧
        (after.arena.walk? id).isSome ∧ (after.arena.snapshot? names id).isSome ∧
        (after.arena.bracketed? names id).isSome := by
  obtain ⟨answers, after, done, reached, sound⟩ := (start_sound config tracer).run events
  have forest := sound.forest
  refine ⟨answers, after, done, reached, ?_, ?_, forest.children_ordered, ?_, forest.nodup_children,
    ?_, ?_, ?_⟩
  · exact fun id above => forest.parent_older
  · exact fun id child listed => ⟨forest.child_lt_size listed, forest.parent_of_child listed⟩
  · exact fun id other child => forest.owner_unique
  · exact fun id => sound.current_context
  · exact fun id isRoot => ⟨sound.root_context isRoot, sound.root_parentless isRoot⟩
  · intro names id
    have below := forest.endsBelow id
    exact ⟨Arena.isSome_depth?.mpr (forest.endsAbove id), Arena.isSome_text?.mpr below,
      Arena.isSome_walk?.mpr below, Arena.isSome_snapshot?.mpr below,
      Arena.isSome_bracketed?.mpr below⟩

end Recognizer.Builder
