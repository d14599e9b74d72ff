import Recognizer.Proofs.SymbolSet.Insertion
import Recognizer.Proofs.Tree.Forest
import Recognizer.Proofs.Tree.Yield

/-!
# Extents

The span of a node is the range of positions that it covers; a context that was not closed, or that
was closed before there was any token, covers none.  `Within lo hi ids` says that the nodes of a
list cover positions from `lo` on and before `hi` only, and one after the other.

A revision that adds nodes and changes child lists `Retains` what the old nodes cover.  If it leaves
the child list of a context alone too, the context is `Steady`: its children cover what they did.
-/

namespace Recognizer

theorem Interval.notMem_unset (x : Int32) : x ∉ Interval.unset := by
  rw [Interval.mem_iff]
  rintro ⟨above, below⟩
  have empty : Interval.unset.hi.toInt < Interval.unset.lo.toInt := by decide
  omega

namespace Tree.Arena

variable {arena after final : Arena} {id : NodeId}

/-! ## Spans -/

theorem span_of_leaf {leaf : Leaf} (found : arena.node? id = some (.leaf leaf)) :
    arena.span id = ⟨leaf.token.index, leaf.token.index⟩ := by
  unfold span
  rw [found]

theorem span_of_bounds {first last : Token} (started : arena.start? id = some first)
    (stopped : arena.stop? id = some last) : arena.span id = ⟨first.index, last.index⟩ := by
  obtain ⟨context, found, isStart⟩ := Option.bind_eq_some_iff.mp started
  obtain ⟨_, foundToo, isStop⟩ := Option.bind_eq_some_iff.mp stopped
  cases found.symm.trans foundToo
  rcases context with ⟨_, _, _, _, start, stop, _⟩
  cases isStart
  cases isStop
  unfold span
  rw [context?_eq_some_iff.mp found]

theorem span_of_unstopped (isContext : arena.IsContext id) (unstopped : arena.stop? id = none) :
    arena.span id = .unset := by
  obtain ⟨⟨_, _, _, _, start, stop, _⟩, found⟩ := isContext_iff.mp isContext
  rw [stop?, context?_eq_some_iff.mpr found] at unstopped
  cases unstopped
  unfold span
  rw [found]
  rcases start <;> rfl

theorem span_modify_of_ne {target : NodeId} (other : id ≠ target) (change : Node → Node) :
    (arena.modify target change).span id = arena.span id := by
  unfold span
  rw [node?_modify, if_neg other]

/-! ## Nodes that cover positions one after the other -/

/-- All positions that the first node covers come before those that the second one covers. -/
def SpansBefore (arena : Arena) (x y : NodeId) : Prop :=
  ∀ i ∈ arena.span x, ∀ j ∈ arena.span y, i < j

/-- The nodes cover positions from `lo` on and before `hi` only, one after the other. -/
structure Within (arena : Arena) (lo hi : Nat) (ids : List NodeId) : Prop where
  bounds : ∀ id ∈ ids, ∀ i ∈ arena.span id, (lo : Int) ≤ i.toInt ∧ i.toInt < hi
  ordered : ids.Pairwise arena.SpansBefore

namespace Within

variable {lo hi later : Nat} {ids : List NodeId}

theorem nil : arena.Within lo hi [] :=
  ⟨by simp, .nil⟩

theorem sublist (within : arena.Within lo hi ids) {fewer : List NodeId} (sub : fewer.Sublist ids) :
    arena.Within lo hi fewer :=
  ⟨fun id member => within.bounds id (sub.subset member), within.ordered.sublist sub⟩

theorem congr (within : arena.Within lo hi ids)
    (same : ∀ id ∈ ids, after.span id = arena.span id) : after.Within lo hi ids where
  bounds id member i covered := within.bounds id member i (same id member ▸ covered)
  ordered := within.ordered.imp_of_mem fun member memberToo before i covered j coveredToo =>
    before i (same _ member ▸ covered) j (same _ memberToo ▸ coveredToo)

/-- A node that covers positions from `hi` on may be put after the others. -/
theorem concat (within : arena.Within lo hi ids) (above : lo ≤ hi) (longer : hi ≤ later)
    (covers : ∀ i ∈ arena.span id, (hi : Int) ≤ i.toInt ∧ i.toInt < later) :
    arena.Within lo later (ids ++ [id]) where
  bounds x member i covered := by
    rcases List.mem_append.mp member with old | new
    · obtain ⟨from', before⟩ := within.bounds x old i covered
      omega
    · cases List.mem_singleton.mp new
      obtain ⟨from', before⟩ := covers i covered
      omega
  ordered := by
    refine List.pairwise_append.mpr ⟨within.ordered, List.pairwise_singleton _ _, ?_⟩
    intro x old y new i covered j coveredToo
    cases List.mem_singleton.mp new
    have before := (within.bounds x old i covered).2
    have from' := (covers j coveredToo).1
    exact Int32.lt_iff_toInt_lt.mpr (by omega)

/-- Without a last node that covers a position, all that is covered comes before that position. -/
theorem before_last (within : arena.Within lo hi (ids ++ [id])) {i : Int32}
    (covered : i ∈ arena.span id) (last : i.toInt = later) : arena.Within lo later ids where
  bounds x member j coveredToo := by
    have ordered := (List.pairwise_append.mp within.ordered).2.2 x member id
      (List.mem_singleton_self id) j coveredToo i covered
    have above := (within.bounds x (List.mem_append_left _ member) j coveredToo).1
    exact ⟨above, last ▸ Int32.lt_iff_toInt_lt.mp ordered⟩
  ordered := (List.pairwise_append.mp within.ordered).1

end Within

/-! ## What revisions retain -/

/-- The nodes of an arena are in another one, and differ there in their child lists only. -/
structure Retains (arena after : Arena) : Prop where
  leaf : ∀ {id leaf}, arena.node? id = some (.leaf leaf) → after.node? id = some (.leaf leaf)
  context : ∀ {id context}, arena.node? id = some (.context context) →
    ∃ children, after.node? id = some (.context (context.withChildren children))

namespace Retains

theorem refl (arena : Arena) : arena.Retains arena where
  leaf found := found
  context found := ⟨_, found⟩

theorem trans (retains : arena.Retains after) (later : after.Retains final) :
    arena.Retains final where
  leaf found := later.leaf (retains.leaf found)
  context found := by
    obtain ⟨_, foundAfter⟩ := retains.context found
    obtain ⟨children, foundFinal⟩ := later.context foundAfter
    exact ⟨children, foundFinal⟩

theorem push (arena : Arena) (node : Node) : arena.Retains (arena.push node) where
  leaf found := by
    rw [node?_push, if_neg (ne_nextId_of_lt_size (lt_size_of_node? found))]
    exact found
  context found := by
    rw [node?_push, if_neg (ne_nextId_of_lt_size (lt_size_of_node? found))]
    exact ⟨_, found⟩

theorem relist (arena : Arena) (target : NodeId) {change : Context → Context}
    (relists : ∀ context, ∃ children, change context = context.withChildren children) :
    arena.Retains (arena.modify target (.onContext change)) where
  leaf found := by
    rw [node?_modify, found]
    split <;> rfl
  context {id context} found := by
    obtain ⟨children, changed⟩ := relists context
    rw [node?_modify, found]
    split
    · exact ⟨children, congrArg (some <| Node.context ·) changed⟩
    · exact ⟨_, rfl⟩

theorem append (arena : Arena) (target child : NodeId) :
    arena.Retains (arena.append target child) :=
  relist arena target fun _ => ⟨_, rfl⟩

theorem dropLast (arena : Arena) (target : NodeId) : arena.Retains (arena.dropLast target) :=
  relist arena target fun _ => ⟨_, rfl⟩

theorem span (retains : arena.Retains after) (inside : id.index < arena.size) :
    after.span id = arena.span id := by
  obtain ⟨node, found⟩ := exists_node?_of_lt_size inside
  unfold Arena.span
  rw [found]
  cases node with
  | leaf l => rw [retains.leaf found]
  | context c =>
    obtain ⟨children, foundAfter⟩ := retains.context found
    rcases c with ⟨_, _, _, _, start, stop, _⟩
    rw [foundAfter]
    rcases start <;> rcases stop <;> rfl

theorem start? (retains : arena.Retains after) (isContext : arena.IsContext id) :
    after.start? id = arena.start? id := by
  obtain ⟨context, found⟩ := isContext_iff.mp isContext
  obtain ⟨children, foundAfter⟩ := retains.context found
  rw [Arena.start?, Arena.start?, context?_eq_some_iff.mpr found,
    context?_eq_some_iff.mpr foundAfter]
  rfl

theorem stop? (retains : arena.Retains after) (isContext : arena.IsContext id) :
    after.stop? id = arena.stop? id := by
  obtain ⟨context, found⟩ := isContext_iff.mp isContext
  obtain ⟨children, foundAfter⟩ := retains.context found
  rw [Arena.stop?, Arena.stop?, context?_eq_some_iff.mpr found,
    context?_eq_some_iff.mpr foundAfter]
  rfl

/-- A new context has the bounds that it was made with, and the same children unless its child list
is touched. -/
theorem new_context {context : Context}
    (retains : (arena.push (.context context)).Retains after) {touched : List NodeId}
    (untouched : (arena.push (.context context)).Untouched after touched)
    (out : arena.nextId ∉ touched) :
    after.start? arena.nextId = context.start ∧ after.stop? arena.nextId = context.stop ∧
      after.children arena.nextId = context.children := by
  have isContext := isContext_push_nextId arena context
  have pushed : (arena.push (.context context)).context? arena.nextId = some context := by
    rw [context?_push, if_pos rfl]
    rfl
  refine ⟨?_, ?_, ?_⟩
  · rw [retains.start? isContext, Arena.start?, pushed]
    rfl
  · rw [retains.stop? isContext, Arena.stop?, pushed]
    rfl
  · rw [(untouched _ isContext.lt_size out).2.2.1, children_push, if_pos rfl]
    rfl

end Retains

/-- The child list of a node is as it was, and its children cover what they did. -/
structure Steady (arena after : Arena) (id : NodeId) : Prop where
  children : after.children id = arena.children id
  spans : ∀ child ∈ arena.children id, after.span child = arena.span child

theorem Steady.within (steady : arena.Steady after id) {lo hi : Nat}
    (within : arena.Within lo hi (arena.children id)) : after.Within lo hi (after.children id) := by
  rw [steady.children]
  exact within.congr steady.spans

theorem Forest.steady (forest : arena.Forest) (retains : arena.Retains after)
    {touched : List NodeId} (untouched : arena.Untouched after touched)
    (inside : id.index < arena.size) (out : id ∉ touched) : arena.Steady after id where
  children := (untouched id inside out).2.2.1
  spans _ listed := retains.span (forest.child_lt_size listed)

end Tree.Arena

end Recognizer
