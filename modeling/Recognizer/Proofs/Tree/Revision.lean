import Recognizer.Tree.Edit

/-!
# Revised arenas

Every edit of an arena comes down to two plain functions: `Arena.push` adds a node and
`Arena.modify` changes one.  This module says what the queries find afterwards, so that the effect
of an edit on parent links, child lists and contexts is read off by rewriting.

`Arena.append` and `Arena.dropLast` are the two changes of a child list.
`isContext_modify_onContext`, `parent?_modify_onContext` and `children_modify_onContext` are the
frames of the changes that leave the shape of the tree alone.
-/

namespace Recognizer.Tree

/-! ## Changes of one node -/

/-- The context with one more child. -/
def Context.append (child : NodeId) (context : Context) : Context :=
  context.withChildren (context.children ++ [child])

/-- The context without its last child. -/
def Context.dropLast (context : Context) : Context :=
  context.withChildren context.children.dropLast

theorem Context.dropLast_of_children_eq_nil {context : Context}
    (childless : context.children = []) : context.dropLast = context := by
  unfold dropLast withChildren
  rw [childless, List.dropLast_nil, ← childless]

namespace Node

/-- The child list of a node; a leaf has none. -/
def children : Node → List NodeId
  | leaf _ => []
  | context c => c.children

/-- The node with its context changed; a leaf stays as it is. -/
def onContext (change : Context → Context) : Node → Node
  | leaf l => leaf l
  | context c => context (change c)

theorem parent?_withParent (parent : NodeId) (node : Node) :
    (node.withParent parent).parent? = some parent := by
  cases node <;> rfl

theorem children_withParent (parent : NodeId) (node : Node) :
    (node.withParent parent).children = node.children := by
  cases node <;> rfl

theorem children_onContext {change : Context → Context}
    (keeps : ∀ context, (change context).children = context.children) (node : Node) :
    (node.onContext change).children = node.children := by
  cases node with
  | leaf l => rfl
  | context c => exact keeps c

theorem withParent_of_parent? {parent : NodeId} {node : Node}
    (linked : node.parent? = some parent) : node.withParent parent = node := by
  cases node with
  | leaf l =>
    cases linked
    rfl
  | context c =>
    have own : c.parent = some parent := linked
    simp [withParent, Context.withParent, ← own]

end Node

namespace Arena

/-! ## Revised arenas and what is found in them -/

/-- The arena with one more node, whose id is its former size. -/
def push (arena : Arena) (node : Node) : Arena :=
  ⟨arena.nodes.push node⟩

/-- The id of the next node to be added. -/
def nextId (arena : Arena) : NodeId :=
  ⟨arena.size⟩

/-- The arena with one node changed, if it exists. -/
def modify (arena : Arena) (id : NodeId) (change : Node → Node) : Arena :=
  ⟨arena.nodes.modify id.index change⟩

/-- The arena with one more child in the child list of a context. -/
def append (arena : Arena) (id child : NodeId) : Arena :=
  arena.modify id (.onContext (.append child))

/-- The arena with the last child taken out of the child list of a context. -/
def dropLast (arena : Arena) (id : NodeId) : Arena :=
  arena.modify id (.onContext .dropLast)

/-- The id belongs to a context of the arena. -/
def IsContext (arena : Arena) (id : NodeId) : Prop :=
  (arena.context? id).isSome

instance (arena : Arena) (id : NodeId) : Decidable (arena.IsContext id) :=
  inferInstanceAs (Decidable ((arena.context? id).isSome = true))

theorem node?_push (arena : Arena) (node : Node) (id : NodeId) :
    (arena.push node).node? id = if id = arena.nextId then some node else arena.node? id := by
  rcases id with ⟨index⟩
  simp [push, node?, nextId, size, Array.getElem?_push]

theorem node?_modify (arena : Arena) (target : NodeId) (change : Node → Node) (id : NodeId) :
    (arena.modify target change).node? id =
      if id = target then (arena.node? id).map change else arena.node? id := by
  rcases id with ⟨index⟩
  rcases target with ⟨position⟩
  simp [modify, node?, Array.getElem?_modify, eq_comm]

theorem size_push (arena : Arena) (node : Node) : (arena.push node).size = arena.size + 1 :=
  Array.size_push node

theorem size_modify (arena : Arena) (target : NodeId) (change : Node → Node) :
    (arena.modify target change).size = arena.size :=
  Array.size_modify

theorem lt_size_of_node? {arena : Arena} {id : NodeId} {node : Node}
    (found : arena.node? id = some node) : id.index < arena.size := by
  obtain ⟨inside, -⟩ := Array.getElem?_eq_some_iff.mp found
  exact inside

theorem exists_node?_of_lt_size {arena : Arena} {id : NodeId} (inside : id.index < arena.size) :
    ∃ node, arena.node? id = some node :=
  ⟨_, Array.getElem?_eq_getElem inside⟩

theorem node?_nextId (arena : Arena) : arena.node? arena.nextId = none := by
  simp [node?, nextId, size]

theorem ne_nextId_of_lt_size {arena : Arena} {id : NodeId} (inside : id.index < arena.size) :
    id ≠ arena.nextId := by
  rintro rfl
  exact Nat.lt_irrefl _ inside

theorem children_eq (arena : Arena) (id : NodeId) :
    arena.children id = ((arena.node? id).map Node.children).getD [] := by
  unfold children context?
  rcases arena.node? id with - | ⟨l⟩ | ⟨c⟩ <;> rfl

theorem children_of_node? {arena : Arena} {id : NodeId} {node : Node}
    (found : arena.node? id = some node) : arena.children id = node.children := by
  rw [children_eq, found]
  rfl

theorem context?_eq_some_iff {arena : Arena} {id : NodeId} {context : Context} :
    arena.context? id = some context ↔ arena.node? id = some (.context context) := by
  unfold context?
  rcases arena.node? id with - | ⟨l⟩ | ⟨c⟩ <;> simp [Node.context?]

theorem parent?_of_context? {arena : Arena} {id : NodeId} {context : Context}
    (found : arena.context? id = some context) : arena.parent? id = context.parent := by
  rw [parent?, context?_eq_some_iff.mp found]
  rfl

theorem children_of_context? {arena : Arena} {id : NodeId} {context : Context}
    (found : arena.context? id = some context) : arena.children id = context.children := by
  rw [children, found]

theorem context?_of_missing {arena : Arena} {id : NodeId} (missing : arena.node? id = none) :
    arena.context? id = none := by
  rw [context?, missing]
  rfl

theorem context?_of_leaf {arena : Arena} {id : NodeId} {leaf : Leaf}
    (found : arena.node? id = some (.leaf leaf)) : arena.context? id = none := by
  rw [context?, found]
  rfl

theorem isContext_iff {arena : Arena} {id : NodeId} :
    arena.IsContext id ↔ ∃ context, arena.node? id = some (.context context) := by
  simp only [IsContext, Option.isSome_iff_exists, context?_eq_some_iff]

theorem IsContext.lt_size {arena : Arena} {id : NodeId} (isContext : arena.IsContext id) :
    id.index < arena.size := by
  obtain ⟨context, found⟩ := isContext_iff.mp isContext
  exact lt_size_of_node? found

theorem IsContext.ne_nextId {arena : Arena} {id : NodeId} (isContext : arena.IsContext id) :
    id ≠ arena.nextId :=
  ne_nextId_of_lt_size isContext.lt_size

theorem isContext_of_mem_children {arena : Arena} {id child : NodeId}
    (listed : child ∈ arena.children id) : arena.IsContext id := by
  rw [children_eq] at listed
  rcases found : arena.node? id with - | ⟨l⟩ | ⟨c⟩
  · simp [found] at listed
  · simp [found, Node.children] at listed
  · exact isContext_iff.mpr ⟨c, found⟩

theorem lt_size_of_parent? {arena : Arena} {id above : NodeId}
    (linked : arena.parent? id = some above) : id.index < arena.size := by
  obtain ⟨node, found, -⟩ := Option.bind_eq_some_iff.mp linked
  exact lt_size_of_node? found

theorem parent?_push (arena : Arena) (node : Node) (id : NodeId) :
    (arena.push node).parent? id =
      if id = arena.nextId then node.parent? else arena.parent? id := by
  unfold parent?
  rw [node?_push]
  split <;> rfl

theorem parent?_push_nextId (arena : Arena) (node : Node) :
    (arena.push node).parent? arena.nextId = node.parent? := by
  rw [parent?_push, if_pos rfl]

theorem children_push (arena : Arena) (node : Node) (id : NodeId) :
    (arena.push node).children id =
      if id = arena.nextId then node.children else arena.children id := by
  rw [children_eq, children_eq, node?_push]
  split <;> rfl

/-- A node without children changes no child list when it is added. -/
theorem children_push_of_childless (arena : Arena) {node : Node} (childless : node.children = [])
    (id : NodeId) : (arena.push node).children id = arena.children id := by
  rw [children_push]
  split
  · rename_i new
    rw [childless, children_eq, new, node?_nextId]
    rfl
  · rfl

theorem context?_push (arena : Arena) (node : Node) (id : NodeId) :
    (arena.push node).context? id =
      if id = arena.nextId then node.context? else arena.context? id := by
  unfold context?
  rw [node?_push]
  split <;> rfl

theorem token?_push (arena : Arena) (node : Node) (id : NodeId) :
    (arena.push node).token? id =
      if id = arena.nextId then node.token? else arena.token? id := by
  unfold token?
  rw [node?_push]
  split <;> rfl

theorem isContext_push_nextId (arena : Arena) (context : Context) :
    (arena.push (.context context)).IsContext arena.nextId := by
  rw [IsContext, context?_push, if_pos rfl]
  rfl

theorem IsContext.push {arena : Arena} {id : NodeId} (isContext : arena.IsContext id)
    (node : Node) : (arena.push node).IsContext id := by
  rw [IsContext, context?_push, if_neg isContext.ne_nextId]
  exact isContext

theorem parent?_modify (arena : Arena) (target : NodeId) (change : Node → Node) (id : NodeId) :
    (arena.modify target change).parent? id =
      if id = target then (arena.node? id).bind fun node => (change node).parent?
      else arena.parent? id := by
  unfold parent?
  rw [node?_modify]
  split
  · rcases arena.node? id <;> rfl
  · rfl

theorem children_modify (arena : Arena) (target : NodeId) (change : Node → Node) (id : NodeId) :
    (arena.modify target change).children id =
      if id = target then ((arena.node? id).map fun node => (change node).children).getD []
      else arena.children id := by
  rw [children_eq, children_eq, node?_modify]
  split
  · rcases arena.node? id <;> rfl
  · rfl

theorem context?_modify_onContext (arena : Arena) (target : NodeId) (change : Context → Context)
    (id : NodeId) :
    (arena.modify target (.onContext change)).context? id =
      if id = target then (arena.context? id).map change else arena.context? id := by
  unfold context?
  rw [node?_modify]
  split
  · rcases arena.node? id with - | ⟨l⟩ | ⟨c⟩ <;> rfl
  · rfl

/-- Changing the contents of a context makes and unmakes no contexts. -/
theorem isContext_modify_onContext {arena : Arena} {target : NodeId} {change : Context → Context}
    {id : NodeId} :
    (arena.modify target (.onContext change)).IsContext id ↔ arena.IsContext id := by
  unfold IsContext
  rw [context?_modify_onContext]
  split <;> simp

/-- Linking a node to a parent makes and unmakes no contexts. -/
theorem isContext_modify_withParent {arena : Arena} {target parent id : NodeId} :
    (arena.modify target (.withParent parent)).IsContext id ↔ arena.IsContext id := by
  unfold IsContext context?
  rw [node?_modify]
  split
  · rcases arena.node? id with - | ⟨l⟩ | ⟨c⟩ <;> simp [Node.withParent, Node.context?]
  · rfl

/-- Changing the contents of a context changes no tokens. -/
theorem token?_modify_onContext (arena : Arena) (target : NodeId) (change : Context → Context)
    (id : NodeId) : (arena.modify target (.onContext change)).token? id = arena.token? id := by
  unfold token?
  rw [node?_modify]
  split
  · rcases arena.node? id with - | ⟨l⟩ | ⟨c⟩ <;> rfl
  · rfl

/-- A change of a context that keeps its parent link keeps all parent links. -/
theorem parent?_modify_onContext {arena : Arena} {target : NodeId} {change : Context → Context}
    (keeps : ∀ context, (change context).parent = context.parent) (id : NodeId) :
    (arena.modify target (.onContext change)).parent? id = arena.parent? id := by
  rw [parent?_modify]
  split
  · unfold parent?
    rcases arena.node? id with - | ⟨l⟩ | ⟨c⟩
    · rfl
    · rfl
    · exact keeps c
  · rfl

/-- A change of a node that keeps its child list keeps all child lists. -/
theorem children_modify_of_keeps {arena : Arena} {target : NodeId} {change : Node → Node}
    (keeps : ∀ node, (change node).children = node.children) (id : NodeId) :
    (arena.modify target change).children id = arena.children id := by
  rw [children_modify, children_eq]
  split
  · rcases arena.node? id with - | node
    · rfl
    · exact keeps node
  · rfl

theorem children_modify_onContext {arena : Arena} {target : NodeId} {change : Context → Context}
    (keeps : ∀ context, (change context).children = context.children) (id : NodeId) :
    (arena.modify target (.onContext change)).children id = arena.children id :=
  children_modify_of_keeps (Node.children_onContext keeps) id

theorem children_modify_withParent (arena : Arena) (target parent id : NodeId) :
    (arena.modify target (.withParent parent)).children id = arena.children id :=
  children_modify_of_keeps (Node.children_withParent parent) id

theorem parent?_modify_withParent {arena : Arena} {target parent : NodeId}
    (inside : target.index < arena.size) (id : NodeId) :
    (arena.modify target (.withParent parent)).parent? id =
      if id = target then some parent else arena.parent? id := by
  rw [parent?_modify]
  split
  · subst id
    obtain ⟨node, found⟩ := exists_node?_of_lt_size inside
    rw [found]
    exact Node.parent?_withParent parent node
  · rfl

theorem children_append (arena : Arena) (target child id : NodeId) :
    (arena.append target child).children id =
      if id = target ∧ arena.IsContext target then arena.children id ++ [child]
      else arena.children id := by
  unfold append
  rw [children_modify, children_eq]
  by_cases same : id = target
  · subst id
    rcases found : arena.node? target with - | ⟨l⟩ | ⟨c⟩
    · simp [isContext_iff, found]
    · simp [isContext_iff, found, Node.onContext]
    · simp [isContext_iff, found, Node.onContext, Node.children, Context.append,
        Context.withChildren]
  · simp [same]

theorem children_dropLast (arena : Arena) (target id : NodeId) :
    (arena.dropLast target).children id =
      if id = target then (arena.children id).dropLast else arena.children id := by
  unfold dropLast
  rw [children_modify, children_eq]
  by_cases same : id = target
  · subst id
    rcases arena.node? target with - | ⟨l⟩ | ⟨c⟩ <;> simp [Node.onContext, Node.children,
      Context.dropLast, Context.withChildren]
  · simp [same]

/-- A new node that is listed by a context is its last child. -/
theorem children_push_append {arena : Arena} {id : NodeId} (isContext : arena.IsContext id)
    (node : Node) :
    ((arena.push node).append id arena.nextId).children id =
      arena.children id ++ [arena.nextId] := by
  rw [children_append, if_pos ⟨rfl, isContext.push node⟩, children_push,
    if_neg isContext.ne_nextId]

theorem parent?_append (arena : Arena) (target child id : NodeId) :
    (arena.append target child).parent? id = arena.parent? id :=
  @parent?_modify_onContext arena target (.append child) (fun _ => rfl) id

theorem parent?_dropLast (arena : Arena) (target id : NodeId) :
    (arena.dropLast target).parent? id = arena.parent? id :=
  @parent?_modify_onContext arena target .dropLast (fun _ => rfl) id

/-- A change that fixes the node that it is applied to changes nothing. -/
theorem modify_eq_self {arena : Arena} {id : NodeId} {change : Node → Node}
    (fixes : ∀ node, arena.node? id = some node → change node = node) :
    arena.modify id change = arena := by
  refine congrArg mk (Array.ext_getElem? fun index => ?_)
  rw [Array.getElem?_modify]
  split
  · rename_i here
    subst here
    change Option.map change (arena.node? id) = arena.node? id
    rcases found : arena.node? id with - | node
    · rfl
    · rw [Option.map_some, fixes node found]
  · rfl

/-- A change of the node that was just added could have been made before. -/
theorem modify_push_nextId (arena : Arena) (node : Node) (change : Node → Node) :
    (arena.push node).modify arena.nextId change = arena.push (change node) := by
  refine congrArg mk (Array.ext_getElem? fun index => ?_)
  have before := node?_modify (arena.push node) arena.nextId change ⟨index⟩
  have after := node?_push arena (change node) ⟨index⟩
  rw [node?_push] at before
  refine before.trans (Eq.trans ?_ after.symm)
  split <;> rfl

/-- Linking a node to the parent that it has already changes nothing. -/
theorem modify_withParent_of_parent? {arena : Arena} {child parent : NodeId}
    (linked : arena.parent? child = some parent) :
    arena.modify child (.withParent parent) = arena := by
  refine modify_eq_self fun node found => Node.withParent_of_parent? ?_
  unfold parent? at linked
  rw [found] at linked
  exact linked

/-- Without children, dropping the last child changes nothing. -/
theorem dropLast_of_children_eq_nil {arena : Arena} {id : NodeId}
    (childless : arena.children id = []) : arena.dropLast id = arena := by
  refine modify_eq_self fun node found => ?_
  rw [children_of_node? found] at childless
  cases node with
  | leaf l => rfl
  | context c => exact congrArg Node.context (Context.dropLast_of_children_eq_nil childless)

/-! ## What revisions leave alone -/

/-- The contexts of an arena are contexts of another one, with the same parents. -/
structure Keeps (arena after : Arena) : Prop where
  isContext : ∀ {id}, arena.IsContext id → after.IsContext id
  parent? : ∀ {id}, arena.IsContext id → after.parent? id = arena.parent? id

namespace Keeps

theorem refl (arena : Arena) : arena.Keeps arena :=
  ⟨id, fun _ => rfl⟩

theorem trans {first second third : Arena} (keeps : first.Keeps second)
    (keepsToo : second.Keeps third) : first.Keeps third where
  isContext isContext := keepsToo.isContext (keeps.isContext isContext)
  parent? isContext :=
    (keepsToo.parent? (keeps.isContext isContext)).trans (keeps.parent? isContext)

theorem push (arena : Arena) (node : Node) : arena.Keeps (arena.push node) where
  isContext isContext := isContext.push node
  parent? isContext := by rw [parent?_push, if_neg isContext.ne_nextId]

theorem modify_onContext (arena : Arena) (id : NodeId) {change : Context → Context}
    (keeps : ∀ context, (change context).parent = context.parent) :
    arena.Keeps (arena.modify id (.onContext change)) where
  isContext isContext := isContext_modify_onContext.mpr isContext
  parent? _ := parent?_modify_onContext keeps _

theorem dropLast (arena : Arena) (id : NodeId) : arena.Keeps (arena.dropLast id) :=
  modify_onContext arena id fun _ => rfl

end Keeps

/-- Two arenas with the same contexts, which differ in their child lists only. -/
def Relisted (arena after : Arena) : Prop :=
  ∀ id, (after.context? id).map (·.withChildren []) = (arena.context? id).map (·.withChildren [])

namespace Relisted

variable {arena after : Arena} {id : NodeId}

theorem refl (arena : Arena) : arena.Relisted arena :=
  fun _ => rfl

theorem trans {final : Arena} (relisted : arena.Relisted after) (later : after.Relisted final) :
    arena.Relisted final :=
  fun id => (later id).trans (relisted id)

theorem isContext_iff (relisted : arena.Relisted after) :
    after.IsContext id ↔ arena.IsContext id := by
  have same := congrArg Option.isSome (relisted id)
  rw [Option.isSome_map, Option.isSome_map] at same
  unfold IsContext
  rw [same]

/-- A context has the same contents but for its children. -/
theorem context? (relisted : arena.Relisted after) {context : Context}
    (found : arena.context? id = some context) :
    ∃ children, after.context? id = some (context.withChildren children) := by
  have same := relisted id
  rw [found, Option.map_some] at same
  obtain ⟨changed, foundAfter, unlisted⟩ := Option.map_eq_some_iff.mp same
  refine ⟨changed.children, ?_⟩
  have again := congrArg (·.withChildren changed.children) unlisted
  exact foundAfter.trans (congrArg some again)

theorem rule? (relisted : arena.Relisted after) (id : NodeId) :
    after.rule? id = arena.rule? id := by
  have same := congrArg (Option.bind · Context.rule) (relisted id)
  rwa [Option.bind_map, Option.bind_map] at same

theorem keeps (relisted : arena.Relisted after) : arena.Keeps after where
  isContext isContext := relisted.isContext_iff.mpr isContext
  parent? isContext := by
    obtain ⟨context, found⟩ := Option.isSome_iff_exists.mp isContext
    obtain ⟨children, foundAfter⟩ := relisted.context? found
    exact (parent?_of_context? foundAfter).trans (parent?_of_context? found).symm

theorem push_leaf (arena : Arena) (leaf : Leaf) : arena.Relisted (arena.push (.leaf leaf)) := by
  intro id
  rw [context?_push]
  split
  · rename_i new
    rw [new, context?_of_missing arena.node?_nextId]
    rfl
  · rfl

theorem modify_onContext (arena : Arena) (target : NodeId) {change : Context → Context}
    (keeps : ∀ context, (change context).withChildren [] = context.withChildren []) :
    arena.Relisted (arena.modify target (.onContext change)) := by
  intro id
  rw [context?_modify_onContext]
  split
  · rw [Option.map_map]
    exact Option.map_congr fun context _ => keeps context
  · rfl

theorem append (arena : Arena) (id child : NodeId) : arena.Relisted (arena.append id child) :=
  modify_onContext arena id fun _ => rfl

theorem dropLast (arena : Arena) (id : NodeId) : arena.Relisted (arena.dropLast id) :=
  modify_onContext arena id fun _ => rfl

end Relisted

end Arena

end Recognizer.Tree
