import Recognizer.Proofs.Builder.Stack
import Recognizer.Proofs.Tree.Extent

/-!
# Spans of a construction

A construction that takes its tokens one after the other from a stream gives its contexts spans that
are nested as the contexts are.  A `Ledger` notes for every activation how many tokens had been
consumed when it was entered and when it was closed; what is to be shown is that the closed contexts
span just these tokens, that their children lie within them, and that siblings do not overlap.

Taking back does not always give the tokens back, so that there may be gaps.  What never happens is
that fewer tokens are consumed than when an activation was entered that still is open.  `Nested` is
the invariant behind this: what the children of an open context cover lies between where it was
entered and where the next inner one was.
-/

namespace Recognizer.Builder

open Recognizer.Tree (Arena Context LeafKind Node NodeId)

variable {τ : Type}

/-! ## The ledger of a run -/

/-- An open activation: the context that stands for it, and how many tokens had been consumed when
it was entered. -/
structure Activation where
  context : NodeId
  entered : Nat
  deriving DecidableEq, Repr

/-- A closed activation: the context that stood for it at the end, and how many tokens had been
consumed when it was entered and when it was closed. -/
structure Closing where
  context : NodeId
  entered : Nat
  left : Nat
  deriving DecidableEq, Repr

/-- The activations of a run. Those that are open come innermost first, and those that are closed
come newest first. -/
structure Ledger where
  active : List Activation
  closed : List Closing
  deriving DecidableEq, Repr

/-- The ledger after an event with its answer, which finds so many tokens consumed. -/
def Ledger.record (ledger : Ledger) (consumed : Nat) : Event → Option NodeId → Ledger
  | .enter _ _ _, some id => { ledger with active := ⟨id, consumed⟩ :: ledger.active }
  | .exit, some id =>
    match ledger.active with
    | [] => ledger
    | top :: outer => ⟨outer, ⟨id, top.entered, consumed⟩ :: ledger.closed⟩
  | .alt _, some id =>
    match ledger.active with
    | [] => ledger
    | top :: outer => { ledger with active := ⟨id, top.entered⟩ :: outer }
  | _, _ => ledger

/-- Carry out an event, and keep the ledger. -/
def Ledger.follow [Tracer τ] (ledger : Ledger) (event : Event) : Build τ Ledger := do
  let consumed := (← get).consumed.length
  let answer ← event.run
  return ledger.record consumed event answer

/-- The tokens of the stream have their positions as their indices. -/
def Positioned (stream : List Token) : Prop :=
  ∀ (position : Nat) (inside : position < stream.length),
    stream[position].index.toInt = position

instance (stream : List Token) : Decidable (Positioned stream) :=
  inferInstanceAs (Decidable (∀ (position : Nat) (inside : position < stream.length),
    stream[position].index.toInt = position))

theorem Positioned.index {stream : List Token} (positioned : Positioned stream) {position : Nat}
    {token : Token} (found : stream[position]? = some token) : token.index.toInt = position := by
  obtain ⟨inside, rfl⟩ := List.getElem?_eq_some_iff.mp found
  exact positioned position inside

/-- The token of an event is the one of the stream at the number of consumed tokens. -/
def Event.Draws (stream : List Token) (builder : Builder τ) : Event → Prop
  | enter _ _ token | consume token | recover token =>
    stream[builder.consumed.length]? = some token
  | exit | alt _ | retract => True

instance (stream : List Token) (builder : Builder τ) :
    (event : Event) → Decidable (event.Draws stream builder)
  | .enter _ _ token | .consume token | .recover token =>
    inferInstanceAs (Decidable (stream[builder.consumed.length]? = some token))
  | .exit | .alt _ | .retract => isTrue trivial

/-! ## Nested activations -/

/-- Every token has the number of those before it as its index; the newest token comes first. -/
def Numbered : List Token → Prop
  | [] => True
  | token :: older => token.index.toInt = older.length ∧ Numbered older

/-- The interval goes from where the activation was entered to where it was closed. It is not set if
nothing had been consumed by then. -/
def Closing.Spans (closing : Closing) (span : Interval) : Prop :=
  if closing.left = 0 then span = .unset
  else span.lo.toInt = closing.entered ∧ span.hi.toInt = closing.left - 1

theorem Closing.Spans.covers {closing : Closing} {span : Interval} (spans : closing.Spans span)
    {i : Int32} (covered : i ∈ span) : closing.entered ≤ i.toInt ∧ i.toInt < closing.left := by
  unfold Spans at spans
  split at spans
  · exact absurd (spans ▸ covered) (Interval.notMem_unset i)
  · obtain ⟨lo, hi⟩ := spans
    obtain ⟨above, below⟩ := Interval.mem_iff.mp covered
    omega

theorem Closing.Spans.mem {closing : Closing} {span : Interval} (spans : closing.Spans span)
    {i : Int32} (covered : closing.entered ≤ i.toInt ∧ i.toInt < closing.left) : i ∈ span := by
  unfold Spans at spans
  split at spans
  · omega
  · rw [Interval.mem_iff]
    omega

section Arenas

variable {arena after : Arena} {activation : Activation} {closing : Closing}
  {outer : List Activation} {length later : Nat}

/-- The context of an open activation starts where it was entered, and has no stop. -/
structure Begun (arena : Arena) (activation : Activation) : Prop where
  started : ∃ token, arena.start? activation.context = some token ∧
    token.index.toInt = activation.entered
  unstopped : arena.stop? activation.context = none

/-- The context of a closed activation spans it, and so much do its children. -/
structure Settled (arena : Arena) (closing : Closing) : Prop where
  isContext : arena.IsContext closing.context
  entered : closing.entered ≤ closing.left
  spans : closing.Spans (arena.span closing.context)
  within : arena.Within closing.entered closing.left (arena.children closing.context)

/-- Open activations, innermost first, up to so many tokens. Each one is the last child of the next
outer one, whose other children lie before it. -/
inductive Nested (arena : Arena) : Nat → List Activation → Prop
  | nil (length : Nat) : Nested arena length []
  | cons {length : Nat} {top : Activation} {outer : List Activation}
      (entered : top.entered ≤ length)
      (within : arena.Within top.entered length (arena.children top.context))
      (last : ∀ above ∈ outer.head?,
        (arena.children above.context).getLast? = some top.context)
      (below : Nested arena top.entered outer) : Nested arena length (top :: outer)

theorem Begun.retains (begun : Begun arena activation) (retains : arena.Retains after)
    (isContext : arena.IsContext activation.context) : Begun after activation where
  started := by
    rw [retains.start? isContext]
    exact begun.started
  unstopped := (retains.stop? isContext).trans begun.unstopped

theorem Begun.of_context (begun : Begun arena activation)
    (same : after.context? activation.context = arena.context? activation.context) :
    Begun after activation where
  started := by
    rw [Arena.start?, same]
    exact begun.started
  unstopped := by
    rw [Arena.stop?, same]
    exact begun.unstopped

theorem Settled.of_steady (settled : Settled arena closing)
    (steady : arena.Steady after closing.context)
    (span : after.span closing.context = arena.span closing.context)
    (isContext : after.IsContext closing.context) : Settled after closing where
  isContext := isContext
  entered := settled.entered
  spans := span ▸ settled.spans
  within := steady.within settled.within

theorem Nested.of_steady (nested : Nested arena length outer)
    (steady : ∀ activation ∈ outer, arena.Steady after activation.context) :
    Nested after length outer := by
  induction nested with
  | nil length => exact .nil length
  | cons entered within last below ih =>
    obtain ⟨steadyTop, steadyOuter⟩ := List.forall_mem_cons.mp steady
    refine .cons entered (steadyTop.within within) (fun above isAbove => ?_) (ih steadyOuter)
    rw [(steadyOuter above (List.mem_of_mem_head? isAbove)).children]
    exact last above isAbove

/-- A new activation begins at the end, without children. -/
theorem Nested.push (below : Nested arena length outer) {id : NodeId}
    (childless : arena.children id = [])
    (last : ∀ above ∈ outer.head?, (arena.children above.context).getLast? = some id) :
    Nested arena length (⟨id, length⟩ :: outer) := by
  refine .cons (Nat.le_refl _) ?_ last below
  rw [childless]
  exact .nil

/-- The innermost activation may get other children, if these lie within it. -/
theorem Nested.revise (nested : Nested arena length (activation :: outer))
    (steady : ∀ activation ∈ outer, arena.Steady after activation.context)
    (entered : activation.entered ≤ later)
    (within : after.Within activation.entered later (after.children activation.context)) :
    Nested after later (activation :: outer) := by
  cases nested with
  | cons _ _ last below =>
    refine .cons entered within (fun above isAbove => ?_) (below.of_steady steady)
    rw [(steady above (List.mem_of_mem_head? isAbove)).children]
    exact last above isAbove

theorem Nested.within_top (nested : Nested arena length (activation :: outer)) :
    arena.Within activation.entered length (arena.children activation.context) := by
  cases nested with
  | cons _ within _ _ => exact within

theorem Nested.entered_le (nested : Nested arena length outer) :
    ∀ activation ∈ outer, activation.entered ≤ length := by
  induction nested with
  | nil => simp
  | cons entered _ _ _ ih =>
    refine List.forall_mem_cons.mpr ⟨entered, fun activation member => ?_⟩
    exact Nat.le_trans (ih activation member) entered

end Arenas

/-! ## Events -/

theorem grow_retains_push (builder : Builder τ) (parent : Option NodeId) (node : Node) :
    (builder.arena.push node).Retains (builder.grow parent node) := by
  unfold grow
  split
  · exact .append _ _ _
  · exact .refl _

theorem grow_untouched_push (builder : Builder τ) {parent : Option NodeId} (node : Node)
    {touched : List NodeId} (listed : ∀ id ∈ parent, id ∈ touched) :
    (builder.arena.push node).Untouched (builder.grow parent node) touched := by
  unfold grow
  split
  · exact .append _ _ (listed _ rfl)
  · exact .refl _

theorem relabel_retains_push (arena : Arena) (generic : NodeId) (context : Context)
    (number : UInt32) :
    (arena.push (.context (labelled context number))).Retains
      (relabel arena generic context number) := by
  unfold relabel
  split
  · split
    · exact (Arena.Retains.dropLast _ _).trans (.append _ _ _)
    · exact .refl _
  · exact .refl _

theorem relabel_untouched_push (arena : Arena) (generic : NodeId) {context : Context}
    (number : UInt32) {touched : List NodeId} (listed : ∀ id ∈ context.parent, id ∈ touched) :
    (arena.push (.context (labelled context number))).Untouched
      (relabel arena generic context number) touched := by
  unfold relabel
  split
  · rename_i parent linked
    split
    · exact (Arena.Untouched.dropLast _ (listed _ linked)).trans (.append _ _ (listed _ linked))
    · exact .refl _
  · exact .refl _

/-- A context that is closed before there is a token keeps having no stop. -/
theorem exit_arena [Tracer τ] {builder : Builder τ} {id : NodeId}
    (isCurrent : builder.current = some id) :
    (Event.exit.next builder).arena = builder.arena.modify id (.onContext fun context =>
      { context with stop := builder.consumed.head?.or context.stop }) := by
  simp only [Event.next, isCurrent]
  rcases builder.consumed.head? with - | token
  · exact (Arena.modify_eq_self fun node _ => by cases node <;> rfl).symm
  · rfl

/-- The state of a run in which activations nest, with the ledger of it. -/
structure Paced (builder : Builder τ) (ledger : Ledger) : Prop where
  sound : builder.Sound
  builds : builder.buildsTree = true
  mirrors : builder.Mirrors (ledger.active.map Activation.context)
  numbered : Numbered builder.consumed
  begun : ∀ activation ∈ ledger.active, Begun builder.arena activation
  nested : Nested builder.arena builder.consumed.length ledger.active
  settled : ∀ closing ∈ ledger.closed, Settled builder.arena closing
  left : ∀ closing ∈ ledger.closed, closing.context ∉ ledger.active.map Activation.context

namespace Paced

variable {builder : Builder τ} {top : Activation} {active outer : List Activation}
  {closed : List Closing} {ledger : Ledger}

theorem current (paced : builder.Paced ⟨top :: outer, closed⟩) :
    builder.current = some top.context :=
  paced.mirrors.current

theorem isContext (paced : builder.Paced ledger) {activation : Activation}
    (isOpen : activation ∈ ledger.active) : builder.arena.IsContext activation.context :=
  paced.mirrors.path.isContext _ (List.mem_map_of_mem isOpen)

theorem top_notMem (paced : builder.Paced ⟨top :: outer, closed⟩) :
    top.context ∉ outer.map Activation.context :=
  (List.nodup_cons.mp (paced.mirrors.nodup paced.sound)).1

theorem nextId_notMem (paced : builder.Paced ledger) :
    builder.arena.nextId ∉ ledger.active.map Activation.context :=
  fun isOpen => (paced.mirrors.path.isContext _ isOpen).ne_nextId rfl

/-- Closed activations stay settled when only open contexts get other children. -/
theorem settled_after (paced : builder.Paced ledger) {after : Arena}
    (retains : builder.arena.Retains after)
    (untouched : builder.arena.Untouched after (ledger.active.map Activation.context)) :
    ∀ closing ∈ ledger.closed, Settled after closing := by
  intro closing member
  have settled := paced.settled closing member
  have inside := settled.isContext.lt_size
  have out := paced.left closing member
  exact settled.of_steady (paced.sound.forest.steady retains untouched inside out)
    (retains.span inside) ((untouched _ inside out).2.2.2 settled.isContext)

theorem begun_after (paced : builder.Paced ledger) {after : Arena}
    (retains : builder.arena.Retains after) :
    ∀ activation ∈ ledger.active, Begun after activation :=
  fun activation isOpen =>
    (paced.begun activation isOpen).retains retains (paced.isContext isOpen)

/-- The outer activations keep their children, and these what they cover, when a change touches the
innermost one only. -/
theorem steady_outer (paced : builder.Paced ⟨top :: outer, closed⟩) {after : Arena}
    (retains : builder.arena.Retains after)
    (untouched : builder.arena.Untouched after [top.context]) :
    ∀ activation ∈ outer, builder.arena.Steady after activation.context := by
  intro activation isOpen
  refine paced.sound.forest.steady retains untouched
    (paced.isContext (List.mem_cons_of_mem top isOpen)).lt_size fun same => ?_
  rw [List.mem_singleton] at same
  exact paced.top_notMem (same ▸ List.mem_map_of_mem isOpen)

/-- The innermost context gets a new last child, which covers what is consumed from now on. -/
theorem nested_grown (paced : builder.Paced ⟨top :: outer, closed⟩) (node : Node) {later : Nat}
    (longer : builder.consumed.length ≤ later)
    (covers : ∀ i ∈ ((builder.arena.push node).append top.context builder.arena.nextId).span
        builder.arena.nextId, (builder.consumed.length : Int) ≤ i.toInt ∧ i.toInt < later) :
    Nested ((builder.arena.push node).append top.context builder.arena.nextId) later
      (top :: outer) := by
  have isContext := paced.isContext List.mem_cons_self
  have entered := paced.nested.entered_le top List.mem_cons_self
  have retains : builder.arena.Retains
      ((builder.arena.push node).append top.context builder.arena.nextId) :=
    (Arena.Retains.push _ node).trans (.append _ _ _)
  have untouched : builder.arena.Untouched
      ((builder.arena.push node).append top.context builder.arena.nextId) [top.context] :=
    (Arena.Untouched.push _ node).trans (.append _ _ (List.mem_singleton_self _))
  have within := paced.nested.within_top.congr fun child listed =>
    retains.span (paced.sound.forest.child_lt_size listed)
  refine paced.nested.revise (paced.steady_outer retains untouched) (Nat.le_trans entered longer) ?_
  rw [Arena.children_push_append isContext]
  exact within.concat entered longer covers

/-- What is consumed and what is listed stay in step when the last child is taken back. -/
theorem retract_extent (paced : builder.Paced ⟨top :: outer, closed⟩) {consumed : List Token}
    (taken : consumed = unconsumed builder.consumed
      ((builder.arena.children top.context).getLast?.bind builder.arena.token?)) :
    Numbered consumed ∧ top.entered ≤ consumed.length ∧
      builder.arena.Within top.entered consumed.length
        (builder.arena.children top.context).dropLast := by
  have entered := paced.nested.entered_le top List.mem_cons_self
  have within := paced.nested.within_top
  unfold unconsumed at taken
  split at taken
  · rename_i newest
    obtain ⟨token, found⟩ := Option.isSome_iff_exists.mp newest.1
    obtain ⟨child, last, isToken⟩ := Option.bind_eq_some_iff.mp found
    obtain ⟨older, children⟩ := List.getLast?_eq_some_iff.mp last
    obtain ⟨before, consumedBefore⟩ := List.head?_eq_some_iff.mp (newest.2.trans found)
    have numbered := paced.numbered
    rw [consumedBefore] at numbered taken
    rw [List.tail_cons] at taken
    subst taken
    obtain ⟨leaf, isLeaf, rfl⟩ := Arena.exists_leaf_of_token? isToken
    -- The token is the newest one, and what the other children cover comes before it.
    have covered : leaf.token.index ∈ builder.arena.span child := by
      rw [Arena.span_of_leaf isLeaf, Interval.mem_iff]
      exact ⟨Int.le_refl _, Int.le_refl _⟩
    rw [children] at within
    have above := (within.bounds child (by simp) _ covered).1
    obtain ⟨index, numberedBefore⟩ := numbered
    refine ⟨numberedBefore, by omega, ?_⟩
    rw [children, List.dropLast_concat]
    exact within.before_last covered index
  · subst taken
    exact ⟨paced.numbered, entered, within.sublist (List.dropLast_sublist _)⟩

/-- A new context has the bounds and the children that it was made with, and only the innermost
context gets another child. -/
theorem entered (paced : builder.Paced ledger) (context : Context) :
    builder.arena.Retains (builder.grow builder.current (.context context)) ∧
      builder.arena.Untouched (builder.grow builder.current (.context context))
        (ledger.active.map Activation.context) ∧
      (builder.grow builder.current (.context context)).start? builder.arena.nextId =
        context.start ∧
      (builder.grow builder.current (.context context)).stop? builder.arena.nextId =
        context.stop ∧
      (builder.grow builder.current (.context context)).children builder.arena.nextId =
        context.children := by
  have listed (id : NodeId) (isCurrent : id ∈ builder.current) :
      id ∈ ledger.active.map Activation.context := by
    rw [paced.mirrors.current] at isCurrent
    exact List.mem_of_mem_head? isCurrent
  have retainsPush := builder.grow_retains_push builder.current (.context context)
  have untouchedPush := builder.grow_untouched_push (.context context) listed
  exact ⟨(Arena.Retains.push _ _).trans retainsPush, (Arena.Untouched.push _ _).trans untouchedPush,
    retainsPush.new_context untouchedPush paced.nextId_notMem⟩

theorem nested_entered (paced : builder.Paced ⟨active, closed⟩) {context : Context}
    (isNew : context.children = []) (isOpen : context.stop = none) :
    Nested (builder.grow builder.current (.context context)) builder.consumed.length
      (⟨builder.arena.nextId, builder.consumed.length⟩ :: active) := by
  obtain ⟨-, -, -, unstopped, children⟩ := paced.entered context
  have childless := children.trans isNew
  rcases active with - | ⟨top, outer⟩
  · exact (Nested.nil _).push childless nofun
  · have unset := Arena.span_of_unstopped ((builder.grow_keeps_push _ _).isContext
      (Arena.isContext_push_nextId _ _)) (unstopped.trans isOpen)
    rw [paced.current, grow_listed paced.builds] at unset childless ⊢
    have nested := paced.nested_grown (.context context) (Nat.le_refl _) fun i covered =>
      absurd (unset ▸ covered) (Interval.notMem_unset i)
    refine nested.push childless fun above isAbove => ?_
    cases isAbove
    rw [Arena.children_push_append (paced.isContext List.mem_cons_self), List.getLast?_concat]

/-- The parent of the innermost context is the next outer one. -/
theorem parent_eq (paced : builder.Paced ⟨top :: outer, closed⟩) {context : Context}
    (found : builder.arena.context? top.context = some context) :
    context.parent = (outer.map Activation.context).head? :=
  (Arena.parent?_of_context? found).symm.trans paced.mirrors.path.follows.1

/-- The labelled context has the bounds of the generic one and no children, and its parent is the
only old context that gets other children. -/
theorem relabelled (paced : builder.Paced ⟨top :: outer, closed⟩) {context : Context}
    (found : builder.arena.context? top.context = some context) (number : UInt32) :
    builder.arena.Retains (relabel builder.arena top.context context number) ∧
      builder.arena.Untouched (relabel builder.arena top.context context number)
        (outer.map Activation.context).head?.toList ∧
      (relabel builder.arena top.context context number).start? builder.arena.nextId =
        context.start ∧
      (relabel builder.arena top.context context number).stop? builder.arena.nextId =
        context.stop ∧
      (relabel builder.arena top.context context number).children builder.arena.nextId = [] := by
  have listed (id : NodeId) (isParent : id ∈ context.parent) :
      id ∈ (outer.map Activation.context).head?.toList := by
    rw [← paced.parent_eq found]
    exact Option.mem_toList.mpr isParent
  have retainsPush := relabel_retains_push builder.arena top.context context number
  have untouchedPush := relabel_untouched_push builder.arena top.context number listed
  have new : builder.arena.nextId ∉ (outer.map Activation.context).head?.toList := fun isParent =>
    paced.nextId_notMem (List.mem_cons_of_mem _
      (List.mem_of_mem_head? (Option.mem_toList.mp isParent)))
  exact ⟨(Arena.Retains.push _ _).trans retainsPush, (Arena.Untouched.push _ _).trans untouchedPush,
    retainsPush.new_context untouchedPush new⟩

theorem nested_relabelled (paced : builder.Paced ⟨top :: outer, closed⟩) {context : Context}
    (found : builder.arena.context? top.context = some context) (number : UInt32) :
    Nested (relabel builder.arena top.context context number) builder.consumed.length
      (⟨builder.arena.nextId, top.entered⟩ :: outer) := by
  obtain ⟨retains, untouched, -, unstopped, childless⟩ := paced.relabelled found number
  have entered := paced.nested.entered_le top List.mem_cons_self
  have within : (relabel builder.arena top.context context number).Within top.entered
      builder.consumed.length
      ((relabel builder.arena top.context context number).children builder.arena.nextId) := by
    rw [childless]
    exact .nil
  rcases outer with - | ⟨above, outer⟩
  · exact .cons entered within nofun (.nil _)
  · cases paced.nested with
    | cons _ _ last below =>
      have isContext := paced.isContext (List.mem_cons_of_mem top List.mem_cons_self)
      have children := children_relabel (paced.parent_eq found) isContext (last above rfl) number
      have aboveEntered := below.entered_le above List.mem_cons_self
      have others := (below.within_top.sublist (List.dropLast_sublist _)).congr
        fun child listed => retains.span
          (paced.sound.forest.child_lt_size (List.dropLast_subset _ listed))
      have unset : (relabel builder.arena top.context context number).span builder.arena.nextId =
          .unset := by
        have generic := (paced.begun top List.mem_cons_self).unstopped
        rw [Arena.stop?, found] at generic
        exact Arena.span_of_unstopped ((relabel_keeps_push builder.arena _ _ _).isContext
          (Arena.isContext_push_nextId _ _)) (unstopped.trans generic)
      -- The labelled context covers nothing yet, as the generic one did not in its place.
      have outerNested : Nested (relabel builder.arena top.context context number) top.entered
          (above :: outer) := by
        refine below.revise (fun activation isOpen => ?_) aboveEntered ?_
        · have isContext := paced.isContext
            (List.mem_cons_of_mem top (List.mem_cons_of_mem above isOpen))
          refine paced.sound.forest.steady retains untouched isContext.lt_size fun isParent => ?_
          have apart := (List.nodup_cons.mp (List.nodup_cons.mp
            (paced.mirrors.nodup paced.sound)).2).1
          exact apart (List.mem_singleton.mp isParent ▸ List.mem_map_of_mem isOpen)
        · rw [children]
          exact others.concat aboveEntered (Nat.le_refl _) fun i covered =>
            absurd (unset ▸ covered) (Interval.notMem_unset i)
      refine .cons entered within (fun next isNext => ?_) outerNested
      cases isNext
      rw [children, List.getLast?_concat]

/-- The innermost context is listed by the next outer one only. -/
theorem owner_of_top (paced : builder.Paced ⟨top :: outer, closed⟩) {owner : NodeId}
    (listed : top.context ∈ builder.arena.children owner) :
    (outer.map Activation.context).head? = some owner :=
  paced.mirrors.path.follows.1.symm.trans (paced.sound.forest.parent_of_child listed)

variable [Tracer τ]

theorem enter (paced : builder.Paced ⟨active, closed⟩) (rule : RuleIndex)
    (invokingState : Option StateId) {first : Token}
    (index : first.index.toInt = builder.consumed.length) :
    ((Event.enter rule invokingState first).next builder).Paced
      ⟨⟨builder.arena.nextId, builder.consumed.length⟩ :: active, closed⟩ := by
  obtain ⟨retains, untouched, started, unstopped, -⟩ :=
    paced.entered (opened builder.current invokingState rule first)
  have sound := paced.sound.next (.enter rule invokingState first)
  have mirrors := paced.mirrors.enter_step rule invokingState first
  refine ⟨sound, paced.builds, mirrors, paced.numbered, ?_, paced.nested_entered rfl rfl,
    paced.settled_after retains untouched, fun closing member => ?_⟩
  · exact List.forall_mem_cons.mpr ⟨⟨⟨first, started, index⟩, unstopped⟩, paced.begun_after retains⟩
  · refine List.not_mem_cons_of_ne_of_not_mem ?_ (paced.left closing member)
    exact (paced.settled closing member).isContext.ne_nextId

theorem retract (paced : builder.Paced ⟨top :: outer, closed⟩) :
    (Event.retract.next builder).Paced ⟨top :: outer, closed⟩ := by
  have arena : (Event.retract.next builder).arena = builder.arena.dropLast top.context := by
    simp only [Event.next, paced.current]
  have taken : (Event.retract.next builder).consumed = unconsumed builder.consumed
      ((builder.arena.children top.context).getLast?.bind builder.arena.token?) := by
    simp only [Event.next, paced.current]
  have current : (Event.retract.next builder).current = builder.current := by
    simp only [Event.next, paced.current]
  have builds := (Event.next_buildsTree builder .retract).trans paced.builds
  have retains : builder.arena.Retains (Event.retract.next builder).arena :=
    arena ▸ .dropLast _ _
  have untouched : builder.arena.Untouched (Event.retract.next builder).arena [top.context] :=
    arena ▸ .dropLast _ (List.mem_singleton_self _)
  have keeps : builder.arena.Keeps (Event.retract.next builder).arena := arena ▸ .dropLast _ _
  obtain ⟨numbered, entered, within⟩ := paced.retract_extent taken
  have within := within.congr fun child listed =>
    retains.span (paced.sound.forest.child_lt_size (List.dropLast_subset _ listed))
  have isTop : [top.context] ⊆ (top :: outer).map Activation.context := by simp
  refine ⟨paced.sound.next .retract, builds, paced.mirrors.keeps keeps current, numbered,
    paced.begun_after retains, ?_, paced.settled_after retains (untouched.mono isTop), paced.left⟩
  refine paced.nested.revise (paced.steady_outer retains untouched) entered ?_
  have children : (Event.retract.next builder).arena.children top.context =
      (builder.arena.children top.context).dropLast := by
    rw [arena, Arena.children_dropLast, if_pos rfl]
  rw [children]
  exact within

theorem recorded (paced : builder.Paced ⟨active, closed⟩) (kind : LeafKind) (hook : Hook)
    {token : Token} (index : token.index.toInt = builder.consumed.length) :
    (builder.recorded kind hook token).Paced ⟨active, closed⟩ := by
  have sound := paced.sound.recorded kind hook token
  have mirrors : (builder.recorded kind hook token).Mirrors (active.map Activation.context) :=
    paced.mirrors.keeps (builder.sprout_keeps kind token) rfl
  rcases active with - | ⟨top, outer⟩
  · have closedNow : builder.current = none := paced.mirrors.current
    have same : (builder.recorded kind hook token).arena = builder.arena := by
      simp only [Builder.recorded, sprout, closedNow]
    exact ⟨sound, paced.builds, mirrors, ⟨index, paced.numbered⟩, List.forall_mem_nil _,
      .nil _, same ▸ paced.settled, paced.left⟩
  · have grown : (builder.recorded kind hook token).arena = _ :=
      sprout_listed paced.builds paced.current kind token
    have retains : builder.arena.Retains (builder.recorded kind hook token).arena :=
      grown ▸ (Arena.Retains.push _ _).trans (.append _ _ _)
    have untouched : builder.arena.Untouched (builder.recorded kind hook token).arena
        ((top :: outer).map Activation.context) :=
      grown ▸ (Arena.Untouched.push _ _).trans (.append _ _ (by simp))
    refine ⟨sound, paced.builds, mirrors, ⟨index, paced.numbered⟩, paced.begun_after retains, ?_,
      paced.settled_after retains untouched, paced.left⟩
    rw [grown]
    refine paced.nested_grown _ (Nat.le_succ _) fun i covered => ?_
    have pushed : (builder.arena.push (.leaf ⟨kind, token, top.context⟩)).node?
        builder.arena.nextId = some (.leaf ⟨kind, token, top.context⟩) := by
      rw [Arena.node?_push, if_pos rfl]
    rw [Arena.span_of_leaf ((Arena.Retains.append _ _ _).leaf pushed), Interval.mem_iff] at covered
    have longer : (builder.recorded kind hook token).consumed.length =
        builder.consumed.length + 1 := rfl
    dsimp only at covered
    omega

theorem exit_spans (paced : builder.Paced ⟨top :: outer, closed⟩) :
    Closing.Spans ⟨top.context, top.entered, builder.consumed.length⟩
      ((Event.exit.next builder).arena.span top.context) := by
  obtain ⟨⟨first, started, index⟩, unstopped⟩ := paced.begun top List.mem_cons_self
  obtain ⟨context, found⟩ := Option.isSome_iff_exists.mp (paced.isContext List.mem_cons_self)
  have foundAfter : (Event.exit.next builder).arena.context? top.context =
      some { context with stop := builder.consumed.head?.or context.stop } := by
    rw [exit_arena paced.current, Arena.context?_modify_onContext, if_pos rfl, found]
    rfl
  rw [Arena.start?, found] at started
  rw [Arena.stop?, found, Option.bind_some] at unstopped
  have startedAfter : (Event.exit.next builder).arena.start? top.context = some first := by
    rw [Arena.start?, foundAfter]
    exact started
  have stopAfter : (Event.exit.next builder).arena.stop? top.context = builder.consumed.head? := by
    rw [Arena.stop?, foundAfter, Option.bind_some, unstopped, Option.or_none]
  have numbered := paced.numbered
  unfold Closing.Spans
  dsimp only
  rcases consumed : builder.consumed with - | ⟨last, older⟩
  · rw [consumed] at stopAfter
    exact Arena.span_of_unstopped (Option.isSome_iff_exists.mpr ⟨_, foundAfter⟩) stopAfter
  · rw [consumed] at stopAfter numbered
    rw [List.length_cons, if_neg (Nat.succ_ne_zero _), Arena.span_of_bounds startedAfter stopAfter]
    refine ⟨index, numbered.1.trans ?_⟩
    omega

theorem exit (paced : builder.Paced ⟨top :: outer, closed⟩) :
    (Event.exit.next builder).Paced
      ⟨outer, ⟨top.context, top.entered, builder.consumed.length⟩ :: closed⟩ := by
  have arena := exit_arena paced.current
  have same : (Event.exit.next builder).consumed = builder.consumed := by
    simp only [Event.next, paced.current]
  have sound := paced.sound.next .exit
  have builds := (Event.next_buildsTree builder .exit).trans paced.builds
  have mirrors := paced.mirrors.exit_step
  have children (id : NodeId) :
      (Event.exit.next builder).arena.children id = builder.arena.children id := by
    rw [arena]
    refine Arena.children_modify_onContext (fun context => ?_) id
    rfl
  have span {id : NodeId} (other : id ≠ top.context) :
      (Event.exit.next builder).arena.span id = builder.arena.span id := by
    rw [arena]
    exact Arena.span_modify_of_ne other _
  have isContext {id : NodeId} (isContext : builder.arena.IsContext id) :
      (Event.exit.next builder).arena.IsContext id := by
    rw [arena]
    exact Arena.isContext_modify_onContext.mpr isContext
  -- Only the span of the closed context changes, and only the next outer context lists it.
  have steady {id : NodeId} (other : (outer.map Activation.context).head? ≠ some id) :
      builder.arena.Steady (Event.exit.next builder).arena id := by
    refine ⟨children id, fun child listed => span fun isTop => other ?_⟩
    exact paced.owner_of_top (isTop ▸ listed)
  have spans := paced.exit_spans
  refine ⟨sound, builds, mirrors, same ▸ paced.numbered, fun activation isOpen => ?_, ?_, ?_, ?_⟩
  · refine (paced.begun activation (List.mem_cons_of_mem top isOpen)).of_context ?_
    rw [arena, Arena.context?_modify_onContext, if_neg]
    exact fun isTop => paced.top_notMem (isTop ▸ List.mem_map_of_mem isOpen)
  · rw [same]
    rcases outer with - | ⟨above, outer⟩
    · exact .nil _
    · cases paced.nested with
      | cons entered within last below =>
        obtain ⟨finished, listed⟩ := List.getLast?_eq_some_iff.mp (last above rfl)
        have distinct := paced.sound.forest.nodup_children above.context
        have within := below.within_top
        have aboveEntered := below.entered_le above List.mem_cons_self
        rw [listed] at distinct within
        refine below.revise (fun activation isOpen => steady fun isAbove => ?_)
          (Nat.le_trans aboveEntered entered) ?_
        · have apart := (List.nodup_cons.mp (mirrors.nodup sound)).1
          exact apart (Option.some.inj isAbove ▸ List.mem_map_of_mem isOpen)
        · have others := (within.sublist (List.sublist_append_left _ _)).congr fun child member =>
            span fun isTop => (List.disjoint_of_nodup_append distinct) member (isTop ▸ by simp)
          rw [children, listed]
          exact others.concat aboveEntered entered fun i => spans.covers
  · refine List.forall_mem_cons.mpr ⟨?_, fun closing member => ?_⟩
    · refine ⟨isContext (paced.isContext List.mem_cons_self),
        paced.nested.entered_le top List.mem_cons_self, spans, ?_⟩
      refine (steady fun isAbove => ?_).within paced.nested.within_top
      exact paced.top_notMem (List.mem_of_mem_head? isAbove)
    · have settled := paced.settled closing member
      have out := paced.left closing member
      refine settled.of_steady (steady fun isAbove => ?_) (span ?_) (isContext settled.isContext)
      · exact out (List.mem_cons_of_mem _ (List.mem_of_mem_head? isAbove))
      · exact List.ne_of_not_mem_cons out
  · refine List.forall_mem_cons.mpr ⟨paced.top_notMem, fun closing member => ?_⟩
    exact List.not_mem_of_not_mem_cons (paced.left closing member)

theorem alt (paced : builder.Paced ⟨top :: outer, closed⟩) (number : UInt32) :
    ((Event.alt number).next builder).Paced
      ⟨⟨builder.arena.nextId, top.entered⟩ :: outer, closed⟩ := by
  obtain ⟨context, found⟩ := Option.isSome_iff_exists.mp (paced.isContext List.mem_cons_self)
  have arena : ((Event.alt number).next builder).arena =
      relabel builder.arena top.context context number := by
    rw [Event.next_alt paced.current found]
  have same : ((Event.alt number).next builder).consumed = builder.consumed := by
    rw [Event.next_alt paced.current found]
  have builds := (Event.next_buildsTree builder (.alt number)).trans paced.builds
  have mirrors := paced.mirrors.alt_step rfl number
  obtain ⟨retains, untouched, started, unstopped, -⟩ := paced.relabelled found number
  have nested := paced.nested_relabelled found number
  obtain ⟨first, last⟩ := paced.begun top List.mem_cons_self
  rw [Arena.start?, found, Option.bind_some, ← started] at first
  rw [Arena.stop?, found, Option.bind_some, ← unstopped] at last
  rw [← arena] at retains untouched first last nested
  have isOuter : (outer.map Activation.context).head?.toList ⊆
      (top :: outer).map Activation.context := fun id isParent =>
    List.mem_cons_of_mem _ (List.mem_of_mem_head? (Option.mem_toList.mp isParent))
  refine ⟨paced.sound.next _, builds, mirrors, same ▸ paced.numbered, ?_, same ▸ nested,
    paced.settled_after retains (untouched.mono isOuter), fun closing member => ?_⟩
  · refine List.forall_mem_cons.mpr ⟨⟨first, last⟩, fun activation isOpen => ?_⟩
    exact paced.begun_after retains activation (List.mem_cons_of_mem top isOpen)
  · refine List.not_mem_cons_of_ne_of_not_mem ?_
      (List.not_mem_of_not_mem_cons (paced.left closing member))
    exact (paced.settled closing member).isContext.ne_nextId

/-- Every event keeps the pace, if its token is the next one. -/
theorem next (paced : builder.Paced ledger) {stream : List Token}
    (positioned : Positioned stream) {event : Event} (draws : event.Draws stream builder) :
    (event.next builder).Paced
      (ledger.record builder.consumed.length event (event.answer builder)) := by
  rcases ledger with ⟨active, closed⟩
  have isCurrent := paced.mirrors.current
  cases event with
  | enter rule invokingState first => exact paced.enter rule invokingState (positioned.index draws)
  | exit =>
    unfold Event.answer
    rw [isCurrent]
    rcases active with - | ⟨top, outer⟩
    · have closedNow : builder.current = none := isCurrent
      simp only [Event.next, closedNow]
      exact paced
    · exact paced.exit
  | alt number =>
    unfold Event.answer
    rw [isCurrent]
    rcases active with - | ⟨top, outer⟩
    · have closedNow : builder.current = none := isCurrent
      simp only [Event.next, closedNow]
      exact paced
    · exact paced.alt number
  | consume token => exact paced.recorded .terminal (.consume token) (positioned.index draws)
  | recover token => exact paced.recorded .error (.error token) (positioned.index draws)
  | retract =>
    rcases active with - | ⟨top, outer⟩
    · have closedNow : builder.current = none := isCurrent
      simp only [Event.next, closedNow]
      exact paced
    · exact paced.retract

end Paced

/-! ## Runs -/

theorem start_paced (config : Config) (tracer : τ) (builds : config.buildsTree = true) :
    (start config tracer).Paced ⟨[], []⟩ where
  sound := start_sound config tracer
  builds := builds
  mirrors := start_mirrors config tracer
  numbered := trivial
  begun := List.forall_mem_nil _
  nested := .nil _
  settled := List.forall_mem_nil _
  left := List.forall_mem_nil _

variable [Tracer τ] {builder : Builder τ} {ledger : Ledger}

theorem Sound.follow_eq (sound : builder.Sound) (ledger : Ledger) (event : Event) :
    ledger.follow event builder =
      .ok (ledger.record builder.consumed.length event (event.answer builder))
        (event.next builder) := by
  unfold Ledger.follow
  refine (bind_of_ok rfl).trans ((bind_of_ok (Event.run_eq sound event)).trans ?_)
  rfl

/-- A run that draws its tokens from a stream keeps the pace. -/
theorem Paced.run (paced : builder.Paced ledger) {stream : List Token}
    (positioned : Positioned stream) {events : List Event}
    (draws : Throughout (Event.Draws stream) builder events) :
    ∃ ledgerAfter after, events.foldlM Ledger.follow ledger builder = .ok ledgerAfter after ∧
      after.Paced ledgerAfter := by
  induction events generalizing builder ledger with
  | nil => exact ⟨ledger, builder, rfl, paced⟩
  | cons event events ih =>
    obtain ⟨drawsNow, drawsLater⟩ := paced.sound.throughout_cons.mp draws
    obtain ⟨ledgerAfter, after, later, pacedAfter⟩ := ih (paced.next positioned drawsNow) drawsLater
    refine ⟨ledgerAfter, after, ?_, pacedAfter⟩
    rw [List.foldlM_cons, bind_of_ok (paced.sound.follow_eq ledger event)]
    exact later

/-- Spans are nested. Let trees be built, and let every token that a run enters a rule at, consumes
or skips be the next one of a stream, at the number of consumed tokens. In whatever order rules are
exited, labels are given and children are taken back, the consumed tokens are then never fewer than
when an activation was entered that still is open, the open activations being the current context
and its ancestors. The context of a closed activation spans the positions from where it was entered
up to where it was closed, even if it was labelled in between; it has no span if nothing had been
consumed by then. What its children cover lies within its span and comes in the order of the
children, so that siblings do not overlap. Since every beginning of such a run is such a run, this
holds after each event. -/
theorem spans_of_stream {stream : List Token} (positioned : Positioned stream) (config : Config)
    (builds : config.buildsTree = true) (tracer : τ) (events : List Event)
    (draws : Throughout (Event.Draws stream) (start config tracer) events) :
    ∃ ledger after, events.foldlM Ledger.follow ⟨[], []⟩ (start config tracer) = .ok ledger after ∧
      after.current = (ledger.active.map Activation.context).head? ∧
      (∀ id, after.current = some id →
        after.arena.lineage? id = some (ledger.active.map Activation.context)) ∧
      (∀ activation ∈ ledger.active, activation.entered ≤ after.consumed.length) ∧
      ∀ closing ∈ ledger.closed,
        closing.Spans (after.arena.span closing.context) ∧
        (∀ child ∈ after.arena.children closing.context, ∀ i ∈ after.arena.span child,
          i ∈ after.arena.span closing.context) ∧
        (after.arena.children closing.context).Pairwise after.arena.SpansBefore := by
  obtain ⟨ledger, after, done, paced⟩ :=
    (start_paced config tracer builds).run positioned draws
  refine ⟨ledger, after, done, paced.mirrors.current, fun id => paced.mirrors.lineage? paced.sound,
    paced.nested.entered_le, fun closing member => ?_⟩
  obtain ⟨-, -, spans, within⟩ := paced.settled closing member
  exact ⟨spans, fun child listed i covered => spans.mem (within.bounds child listed i covered),
    within.ordered⟩

/-- Four tokens at their positions. -/
def fourTokens : List Token :=
  [.ofType 4 0, .ofType 5 1, .ofType 6 2, .ofType 7 3]

/-- A root that is labelled, a rule in it that is taken back although its token stays consumed, a
rule that matches nothing, and a token that is taken back. -/
def rulesWithGap : List Event :=
  [.enter 0 none (.ofType 4 0), .alt 2, .consume (.ofType 4 0), .enter 1 (some 7) (.ofType 5 1),
    .recover (.ofType 5 1), .exit, .retract, .enter 2 (some 9) (.ofType 6 2), .exit,
    .consume (.ofType 6 2), .consume (.ofType 7 3), .retract, .exit]

theorem spans_of_rulesWithGap :
    Positioned fourTokens ∧
      Throughout (Event.Draws fourTokens) (start .default ()) rulesWithGap ∧
      ∃ ledger after,
        rulesWithGap.foldlM Ledger.follow ⟨[], []⟩ (start .default ()) = .ok ledger after ∧
        ledger.closed = [⟨⟨1⟩, 0, 3⟩, ⟨⟨5⟩, 2, 2⟩, ⟨⟨3⟩, 1, 2⟩] ∧
        after.arena.children ⟨1⟩ = [⟨2⟩, ⟨5⟩, ⟨6⟩] ∧
        (after.arena.span ⟨1⟩).lo.toInt = 0 ∧ (after.arena.span ⟨1⟩).hi.toInt = 2 ∧
        [⟨2⟩, ⟨5⟩, ⟨6⟩].Pairwise after.arena.SpansBefore := by
  have positioned : Positioned fourTokens := by decide
  have draws : Throughout (Event.Draws fourTokens) (start .default ()) rulesWithGap := by
    decide +kernel
  have noted : (match rulesWithGap.foldlM Ledger.follow ⟨[], []⟩ (start .default ()) with
    | .ok ledger after => (ledger.closed, after.arena.children ⟨1⟩)
    | .error _ _ => ([], [])) =
      ([⟨⟨1⟩, 0, 3⟩, ⟨⟨5⟩, 2, 2⟩, ⟨⟨3⟩, 1, 2⟩], [⟨2⟩, ⟨5⟩, ⟨6⟩]) := by decide +kernel
  obtain ⟨ledger, after, done, -, -, -, closings⟩ :=
    spans_of_stream positioned .default rfl () rulesWithGap draws
  rw [done] at noted
  obtain ⟨closed, children⟩ := Prod.mk.inj noted
  obtain ⟨⟨lo, hi⟩, -, ordered⟩ := closings ⟨⟨1⟩, 0, 3⟩ (by rw [closed]; exact List.mem_cons_self)
  refine ⟨positioned, draws, ledger, after, done, closed, children, lo, hi, ?_⟩
  rw [← children]
  exact ordered

end Recognizer.Builder
