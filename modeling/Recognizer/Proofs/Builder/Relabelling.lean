import Mathlib.Data.List.Chain
import Recognizer.Proofs.Builder.Spans
import Recognizer.Proofs.Builder.Speculation
import Recognizer.Proofs.Builder.Yield

/-!
# Taking a labelled alternative

A labelled context takes the place of the generic one in the child list of their parent, but only if
the generic one is the last child there; otherwise it would not be in the tree at all.  While trees
are built it always is: the open contexts are the rightmost branch of what has been built
(`Rightmost`), since an event lists new nodes at the top of the stack and takes back nodes from
there only.
-/

namespace Recognizer.Builder

open Recognizer.Tree (Arena Context LeafKind Node NodeId)

/-! ## What a relabelling changes -/

section Relabel

variable {arena : Arena} {generic : NodeId} {context : Context}

theorem relabel_of_parentless (parentless : context.parent = none) (number : UInt32) :
    relabel arena generic context number = arena.push (.context (labelled context number)) := by
  simp only [relabel, parentless]

theorem size_relabel (number : UInt32) :
    (relabel arena generic context number).size = arena.size + 1 := by
  unfold relabel
  split
  · split
    · rw [Arena.append, Arena.size_modify, Arena.dropLast, Arena.size_modify, Arena.size_push]
    · exact Arena.size_push _ _
  · exact Arena.size_push _ _

/-- A relabelling changes no node but the parent. -/
theorem node?_relabel (number : UInt32) {id : NodeId} (other : context.parent ≠ some id) :
    (relabel arena generic context number).node? id =
      (arena.push (.context (labelled context number))).node? id := by
  unfold relabel
  split
  · rename_i parent linked
    have notParent : id ≠ parent := fun same => other (same ▸ linked)
    split
    · rw [Arena.append, Arena.node?_modify, if_neg notParent, Arena.dropLast, Arena.node?_modify,
        if_neg notParent]
    · rfl
  · rfl

theorem node?_relabel_of_lt_size (number : UInt32) {id : NodeId} (inside : id.index < arena.size)
    (other : context.parent ≠ some id) :
    (relabel arena generic context number).node? id = arena.node? id := by
  rw [node?_relabel number other, Arena.node?_push, if_neg (Arena.ne_nextId_of_lt_size inside)]

/-- The labelled context is as it was made: it is not its own parent. -/
theorem context?_relabel_nextId (unborn : context.parent ≠ some arena.nextId) (number : UInt32) :
    (relabel arena generic context number).context? arena.nextId =
      some (labelled context number) := by
  rw [Arena.context?, node?_relabel number unborn, Arena.node?_push, if_pos rfl]
  rfl

/-- The parent of a last child changes in its last child only. -/
theorem context?_relabel_parent {parent : NodeId} (linked : context.parent = some parent)
    {outer : Context} (found : arena.context? parent = some outer) {older : List NodeId}
    (children : outer.children = older ++ [generic]) (number : UInt32) :
    (relabel arena generic context number).context? parent =
      some { outer with children := older ++ [arena.nextId] } := by
  have isContext : arena.IsContext parent := Option.isSome_iff_exists.mpr ⟨outer, found⟩
  have last : (arena.children parent).getLast? = some generic := by
    rw [Arena.children_of_context? found, children, List.getLast?_concat]
  rw [relabel_of_last linked last, Arena.append, Arena.context?_modify_onContext, if_pos rfl,
    Arena.dropLast, Arena.context?_modify_onContext, if_pos rfl, Arena.context?_push,
    if_neg isContext.ne_nextId, found]
  simp [Context.append, Context.dropLast, Context.withChildren, children]

/-- A parent is older than the generic context, and that is older than its children. -/
theorem node?_relabel_of_generic (forest : arena.Forest)
    (found : arena.context? generic = some context) (number : UInt32) {id : NodeId}
    (member : id ∈ generic :: arena.children generic) :
    (relabel arena generic context number).node? id = arena.node? id := by
  have older {parent : NodeId} (linked : context.parent = some parent) :
      parent.index < generic.index :=
    (forest.parent_older ((Arena.parent?_of_context? found).trans linked)).1
  rcases List.mem_cons.mp member with rfl | listed
  · have isContext : arena.IsContext id := Option.isSome_iff_exists.mpr ⟨context, found⟩
    exact node?_relabel_of_lt_size number isContext.lt_size fun linked =>
      Nat.lt_irrefl _ (older linked)
  · have younger := forest.child_younger listed
    exact node?_relabel_of_lt_size number (forest.child_lt_size listed) fun linked =>
      Nat.lt_asymm younger (older linked)

end Relabel

/-! ## The rightmost branch -/

/-- A node is the youngest in the child list of a context. -/
def IsLastChild (arena : Arena) (child owner : NodeId) : Prop :=
  (arena.children owner).getLast? = some child

theorem isLastChild_push_append {arena : Arena} {owner : NodeId} (isContext : arena.IsContext owner)
    (node : Node) :
    IsLastChild ((arena.push node).append owner arena.nextId) arena.nextId owner := by
  rw [IsLastChild, Arena.children_push_append isContext, List.getLast?_concat]

/-- A branch of last children is kept by a change that touches its innermost context only. -/
theorem OpenPath.isChain_after {arena after : Arena} {stack : List NodeId}
    (path : OpenPath arena stack) (distinct : stack.Nodup)
    (chain : stack.IsChain (IsLastChild arena))
    (untouched : arena.Untouched after stack.head?.toList) :
    stack.IsChain (IsLastChild after) := by
  refine chain.imp_of_mem_tail_imp fun inner outer _ isOuter last => ?_
  have isContext := path.isContext outer (List.mem_of_mem_tail isOuter)
  have notTop : outer ∉ stack.head?.toList := by
    rcases stack with - | ⟨top, outers⟩
    · exact List.not_mem_nil
    · intro isTop
      rw [List.head?_cons, Option.toList_some, List.mem_singleton] at isTop
      subst isTop
      exact (List.nodup_cons.mp distinct).1 isOuter
  obtain ⟨-, -, children, -⟩ := untouched outer isContext.lt_size notTop
  rw [IsLastChild, children]
  exact last

variable {τ : Type} {builder : Builder τ} {stack : List NodeId}

theorem sprout_untouched (builder : Builder τ) (kind : LeafKind) (token : Token)
    {touched : List NodeId} (listed : ∀ id ∈ builder.current, id ∈ touched) :
    builder.arena.Untouched (builder.sprout kind token) touched := by
  unfold sprout
  split
  · rename_i id isCurrent _
    exact (Arena.Untouched.push _ _).trans (.append _ _ (listed id isCurrent))
  · exact .refl _

/-- Trees are built, and the open contexts are the rightmost branch of what has been built: each is
the last child of the one around it. -/
structure Rightmost (builder : Builder τ) (stack : List NodeId) : Prop where
  sound : builder.Sound
  mirrors : builder.Mirrors stack
  builds : builder.buildsTree = true
  chain : stack.IsChain (IsLastChild builder.arena)

theorem start_rightmost (config : Config) (tracer : τ) (builds : config.buildsTree = true) :
    (start config tracer).Rightmost [] where
  sound := start_sound config tracer
  mirrors := start_mirrors config tracer
  builds := builds
  chain := .nil

namespace Rightmost

theorem chain_after (rightmost : builder.Rightmost stack) {after : Arena}
    (untouched : builder.arena.Untouched after stack.head?.toList) :
    stack.IsChain (IsLastChild after) :=
  rightmost.mirrors.path.isChain_after (rightmost.mirrors.nodup rightmost.sound) rightmost.chain
    untouched

theorem current_listed (rightmost : builder.Rightmost stack) :
    ∀ id ∈ builder.current, id ∈ stack.head?.toList := by
  intro id isCurrent
  rw [rightmost.mirrors.current] at isCurrent
  exact Option.mem_toList.mpr isCurrent

/-- The current context is the last child of its parent. -/
theorem last_of_parent (rightmost : builder.Rightmost stack) {id parent : NodeId}
    (isCurrent : builder.current = some id) (linked : builder.arena.parent? id = some parent) :
    IsLastChild builder.arena id parent := by
  obtain ⟨below, rfl⟩ := rightmost.mirrors.eq_cons isCurrent
  have isOuter : below.head? = some parent := rightmost.mirrors.path.follows.1.symm.trans linked
  exact (List.isChain_cons.mp rightmost.chain).1 parent isOuter

/-- The parent of the current context exchanges it for the labelled one. -/
theorem relabel_parent (rightmost : builder.Rightmost stack) {generic parent : NodeId}
    (isCurrent : builder.current = some generic) {context : Context}
    (found : builder.arena.context? generic = some context) (linked : context.parent = some parent)
    (number : UInt32) :
    ∃ outer older, builder.arena.context? parent = some outer ∧
      outer.children = older ++ [generic] ∧
      (relabel builder.arena generic context number).context? parent =
        some { outer with children := older ++ [builder.arena.nextId] } ∧
      builder.arena.nextId ∈ (relabel builder.arena generic context number).children parent ∧
      generic ∉ (relabel builder.arena generic context number).children parent := by
  have forest := rightmost.sound.forest
  have isParent := (Arena.parent?_of_context? found).trans linked
  obtain ⟨outer, foundOuter⟩ := Option.isSome_iff_exists.mp (forest.parent_older isParent).2
  have children := Arena.children_of_context? foundOuter
  obtain ⟨older, listed⟩ :=
    List.getLast?_eq_some_iff.mp (rightmost.last_of_parent isCurrent isParent)
  have exchanged := context?_relabel_parent linked foundOuter (children.symm.trans listed) number
  have childrenAfter := Arena.children_of_context? exchanged
  refine ⟨outer, older, foundOuter, children.symm.trans listed, exchanged, ?_, ?_⟩
  · rw [childrenAfter]
    exact List.mem_append_right older (List.mem_singleton_self _)
  · -- The generic context is listed once, and it is not the new one.
    have once := forest.nodup_children parent
    rw [listed, List.nodup_append] at once
    rw [childrenAfter, List.mem_append, List.mem_singleton]
    rintro (isOlder | isNew)
    · exact once.2.2 generic isOlder generic (List.mem_singleton_self _) rfl
    · exact (rightmost.sound.current_context isCurrent).ne_nextId isNew

variable [Tracer τ]

theorem enter (rightmost : builder.Rightmost stack) (rule : RuleIndex)
    (invokingState : Option StateId) (start : Token) :
    ((Event.enter rule invokingState start).next builder).Rightmost
      (builder.arena.nextId :: stack) := by
  have untouched := (Arena.Untouched.push builder.arena _).trans (builder.grow_untouched_push
    (.context (opened builder.current invokingState rule start)) rightmost.current_listed)
  refine ⟨rightmost.sound.next _, rightmost.mirrors.enter_step rule invokingState start,
    rightmost.builds, (rightmost.chain_after untouched).cons fun outer isTop => ?_⟩
  have isCurrent : builder.current = some outer := rightmost.mirrors.current.trans isTop
  rw [isCurrent, grow_listed rightmost.builds]
  exact isLastChild_push_append (rightmost.sound.current_context isCurrent) _

theorem exit (rightmost : builder.Rightmost stack) :
    (Event.exit.next builder).Rightmost stack.tail where
  sound := rightmost.sound.next .exit
  mirrors := rightmost.mirrors.exit_step
  builds := (Event.next_buildsTree builder .exit).trans rightmost.builds
  chain := (rightmost.chain_after ((untouched_exit builder).mono (List.nil_subset _))).tail

/-- The labelled context is the new end of the branch. -/
theorem alt {generic : NodeId} {below : List NodeId}
    (rightmost : builder.Rightmost (generic :: below)) (number : UInt32) :
    ((Event.alt number).next builder).Rightmost (builder.arena.nextId :: below) := by
  have isCurrent : builder.current = some generic := rightmost.mirrors.current
  obtain ⟨context, found⟩ :=
    Option.isSome_iff_exists.mp (rightmost.sound.current_context isCurrent)
  have link := Arena.parent?_of_context? found
  have isOuter : context.parent = below.head? :=
    link.symm.trans rightmost.mirrors.path.follows.1
  have arena : ((Event.alt number).next builder).arena =
      relabel builder.arena generic context number := by
    rw [Event.next_alt isCurrent found]
  have untouched : builder.arena.Untouched (relabel builder.arena generic context number)
      below.head?.toList := by
    refine (Arena.Untouched.push _ _).trans (relabel_untouched_push _ _ _ fun id isParent => ?_)
    exact Option.mem_toList.mpr (isOuter ▸ isParent)
  have distinct := (List.nodup_cons.mp (rightmost.mirrors.nodup rightmost.sound)).2
  have chain := rightmost.mirrors.path.pop.isChain_after distinct rightmost.chain.tail untouched
  refine ⟨rightmost.sound.next _, rightmost.mirrors.alt_step rfl number,
    (Event.next_buildsTree builder _).trans rightmost.builds, ?_⟩
  rw [arena]
  refine chain.cons fun outer isTop => ?_
  have linked : context.parent = some outer := isOuter.trans isTop
  have isContext := (rightmost.sound.forest.parent_older (link.trans linked)).2
  have last := rightmost.last_of_parent isCurrent (link.trans linked)
  rw [IsLastChild, children_relabel linked isContext last, List.getLast?_concat]

theorem recorded (rightmost : builder.Rightmost stack) (kind : LeafKind) (hook : Hook)
    (token : Token) : (builder.recorded kind hook token).Rightmost stack where
  sound := rightmost.sound.recorded kind hook token
  mirrors := rightmost.mirrors.keeps (builder.sprout_keeps kind token) rfl
  builds := rightmost.builds
  chain := rightmost.chain_after (builder.sprout_untouched kind token rightmost.current_listed)

theorem retract (rightmost : builder.Rightmost stack) :
    (Event.retract.next builder).Rightmost stack := by
  rcases isCurrent : builder.current with - | top
  · simp only [Event.next, isCurrent]
    exact rightmost
  · have untouched : builder.arena.Untouched (builder.arena.dropLast top) stack.head?.toList :=
      .dropLast _ (rightmost.current_listed top isCurrent)
    have chain := rightmost.chain_after untouched
    have sound := rightmost.sound.next .retract
    simp only [Event.next, isCurrent] at sound ⊢
    exact ⟨sound, rightmost.mirrors.keeps (.dropLast _ top) isCurrent.symm, rightmost.builds, chain⟩

theorem next (rightmost : builder.Rightmost stack) (event : Event) :
    ∃ stackAfter, (event.next builder).Rightmost stackAfter := by
  cases event with
  | enter rule invokingState start => exact ⟨_, rightmost.enter rule invokingState start⟩
  | exit => exact ⟨_, rightmost.exit⟩
  | alt number =>
    rcases stack with - | ⟨generic, below⟩
    · refine ⟨[], ?_⟩
      have closed : builder.current = none := rightmost.mirrors.current
      simp only [Event.next, closed]
      exact rightmost
    · exact ⟨_, rightmost.alt number⟩
  | consume token => exact ⟨_, rightmost.recorded .terminal (.consume token) token⟩
  | recover token => exact ⟨_, rightmost.recorded .error (.error token) token⟩
  | retract => exact ⟨_, rightmost.retract⟩

theorem foldl (rightmost : builder.Rightmost stack) (events : List Event) :
    ∃ stackAfter, (events.foldl Event.next builder).Rightmost stackAfter := by
  induction events generalizing builder stack with
  | nil => exact ⟨stack, rightmost⟩
  | cons event events ih =>
    obtain ⟨_, rightmostNext⟩ := rightmost.next event
    exact ih rightmostNext

end Rightmost

/-! ## Runs -/

variable [Tracer τ]

/-- The labelled context becomes the root exactly if the generic one was it. -/
theorem root_alt_iff (sound : builder.Sound) {generic : NodeId}
    (isCurrent : builder.current = some generic) (number : UInt32) :
    (((Event.alt number).next builder).root = some builder.arena.nextId ↔
        builder.root = some generic) ∧
      (builder.root ≠ some generic →
        ((Event.alt number).next builder).root = builder.root) := by
  rw [root_alt sound isCurrent number]
  by_cases isRoot : builder.root = some generic
  · rw [if_pos isRoot]
    exact ⟨iff_of_true rfl isRoot, fun notRoot => absurd isRoot notRoot⟩
  · rw [if_neg isRoot]
    have old : builder.root ≠ some builder.arena.nextId :=
      fun isNew => (sound.root_context isNew).ne_nextId rfl
    exact ⟨iff_of_false old isRoot, fun _ => rfl⟩

/-- Without a tree or a parent, a relabelling only adds the labelled context. -/
theorem relabel_unlisted (config : Config) (tracer : τ) (past : List Event) {context : Context}
    (bare : config.buildsTree = false ∨ context.parent = none) (generic : NodeId)
    (number : UInt32) :
    let before := past.foldl Event.next (start config tracer)
    relabel before.arena generic context number =
      before.arena.push (.context (labelled context number)) := by
  rcases bare with off | parentless
  · exact ((start_bare config tracer off).foldl past).relabel_eq generic context number
  · exact relabel_of_parentless parentless number

/-- In every state that a run can reach with an activation open, taking a labelled alternative
answers a new context.  It has the rule, parent, invoking state, start and stop of the generic
context, the given number and no children.  It becomes the current context, and the root exactly if
the generic one was the root.  If trees are built and there is a parent, the generic context is the
last child of the parent, and the labelled one takes its place, so that the parent lists just one of
the two; otherwise no child list changes.  All other nodes stay what they were, among them the
generic context and its children. -/
theorem alt_takes_over (config : Config) (tracer : τ) (past : List Event)
    {answers : List (Option NodeId)} {before : Builder τ}
    (reached : past.mapM Event.run (start config tracer) = .ok answers before) {generic : NodeId}
    (isCurrent : before.current = some generic) (number : UInt32) :
    ∃ context after, before.arena.context? generic = some context ∧
      (Event.alt number).run before = .ok (some before.arena.nextId) after ∧
      before.arena.node? before.arena.nextId = none ∧
      after.arena.size = before.arena.size + 1 ∧
      after.arena.context? before.arena.nextId =
        some { context with alt := some number, children := [] } ∧
      after.current = some before.arena.nextId ∧
      (after.root = some before.arena.nextId ↔ before.root = some generic) ∧
      (before.root ≠ some generic → after.root = before.root) ∧
      (config.buildsTree = true → ∀ parent, context.parent = some parent →
        ∃ outer older, before.arena.context? parent = some outer ∧
          outer.children = older ++ [generic] ∧
          after.arena.context? parent =
            some { outer with children := older ++ [before.arena.nextId] } ∧
          before.arena.nextId ∈ after.arena.children parent ∧
          generic ∉ after.arena.children parent) ∧
      (config.buildsTree = false ∨ context.parent = none →
        ∀ id, after.arena.children id = before.arena.children id) ∧
      (∀ id, id.index < before.arena.size →
        ¬ (config.buildsTree = true ∧ context.parent = some id) →
          after.arena.node? id = before.arena.node? id) ∧
      ∀ id ∈ generic :: before.arena.children generic,
        after.arena.node? id = before.arena.node? id := by
  obtain ⟨_, _, done, folded, sound⟩ := (start_sound config tracer).run past
  cases reached.symm.trans done
  obtain ⟨context, found⟩ := Option.isSome_iff_exists.mp (sound.current_context isCurrent)
  have ran := Event.run_eq sound (.alt number)
  rw [Event.answer, isCurrent, Option.map_some] at ran
  obtain ⟨rootIff, rootElse⟩ := root_alt_iff sound isCurrent number
  have arena : ((Event.alt number).next before).arena =
      relabel before.arena generic context number := by
    rw [Event.next_alt isCurrent found]
  have current : ((Event.alt number).next before).current = some before.arena.nextId := by
    rw [Event.next_alt isCurrent found]
  have unborn : context.parent ≠ some before.arena.nextId := fun linked =>
    (sound.forest.parent_older ((Arena.parent?_of_context? found).trans linked)).2.ne_nextId rfl
  have unlisted (bare : config.buildsTree = false ∨ context.parent = none) :
      relabel before.arena generic context number =
        before.arena.push (.context (labelled context number)) :=
    folded ▸ relabel_unlisted config tracer past bare generic number
  refine ⟨context, _, found, ran, before.arena.node?_nextId, ?_, ?_, current, rootIff, rootElse,
    ?_, ?_, ?_, ?_⟩
  · rw [arena, size_relabel]
  · rw [arena, context?_relabel_nextId unborn]
    rfl
  · intro builds parent linked
    obtain ⟨stack, rightmost⟩ := (start_rightmost config tracer builds).foldl past
    rw [← folded] at rightmost
    rw [arena]
    exact rightmost.relabel_parent isCurrent found linked number
  · intro bare id
    rw [arena, unlisted bare]
    exact before.arena.children_push_of_childless rfl id
  · intro id inside other
    rw [arena]
    by_cases linked : context.parent = some id
    · have off : config.buildsTree = false := by simpa [linked] using other
      rw [unlisted (.inl off), Arena.node?_push, if_neg (Arena.ne_nextId_of_lt_size inside)]
    · exact node?_relabel_of_lt_size number inside linked
  · intro id member
    rw [arena]
    exact node?_relabel_of_generic sound.forest found number member

/-- A rule in the root that is open and whose alternative is not known yet. -/
def undecidedRule : List Event :=
  [.enter 0 none (.ofType 4 0), .consume (.ofType 4 0), .enter 1 (some 7) (.ofType 5 1)]

/-- The root lists a token and the labelled context, which replaces the one that was entered. -/
theorem alt_of_undecidedRule :
    ∃ answers before after,
      undecidedRule.mapM Event.run (start .default ()) = .ok answers before ∧
      before.current = some ⟨2⟩ ∧ before.arena.children ⟨0⟩ = [⟨1⟩, ⟨2⟩] ∧
      (Event.alt 3).run before = .ok (some ⟨3⟩) after ∧
      after.arena.children ⟨0⟩ = [⟨1⟩, ⟨3⟩] ∧ after.arena.parent? ⟨3⟩ = some ⟨0⟩ ∧
      after.root = some ⟨0⟩ := by
  have opened : (match undecidedRule.mapM Event.run (start .default ()) with
    | .ok _ before => some (before.current, before.root, before.arena.size,
        before.arena.children ⟨0⟩, before.arena.parent? ⟨2⟩)
    | .error _ _ => none) =
      some (some ⟨2⟩, some ⟨0⟩, 3, [⟨1⟩, ⟨2⟩], some ⟨0⟩) := by decide +kernel
  obtain ⟨answers, before, done, -, -⟩ := (start_sound .default ()).run undecidedRule
  rw [done] at opened
  simp only [Option.some.injEq, Prod.mk.injEq] at opened
  obtain ⟨isCurrent, isRoot, size, children, link⟩ := opened
  have new : before.arena.nextId = ⟨3⟩ := congrArg NodeId.mk size
  obtain ⟨context, after, found, ran, -, -, labels, -, -, root, listed, -⟩ :=
    alt_takes_over .default () undecidedRule done isCurrent 3
  have linked : context.parent = some ⟨0⟩ := (Arena.parent?_of_context? found).symm.trans link
  obtain ⟨outer, older, foundOuter, wasListed, exchanged, -, -⟩ := listed rfl ⟨0⟩ linked
  have closed : older ++ [⟨2⟩] = [⟨1⟩] ++ [⟨2⟩] := by
    rw [← wasListed, ← Arena.children_of_context? foundOuter, children]
    rfl
  rw [new] at ran labels exchanged
  refine ⟨answers, before, after, done, isCurrent, children, ran, ?_, ?_, ?_⟩
  · rw [Arena.children_of_context? exchanged, List.append_cancel_right closed]
    rfl
  · rw [Arena.parent?_of_context? labels]
    exact linked
  · rw [root (by rw [isRoot]; decide), isRoot]

end Recognizer.Builder
