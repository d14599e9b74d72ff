import Recognizer.Proofs.Tree.Forest

/-!
# Renumbered arenas

Ids count the nodes of an arena, so an arena in which some nodes were made for nothing has the nodes
that follow at other ids.  `Renumbers f arena other` says that the nodes of one arena are in another
one at the ids that `f` gives them, with their links renamed, and that the next nodes of the two get
ids that `f` matches.  The queries then find the same in both, and revisions made in both, of ids
that `f` matches, keep them so.

A forest that is extended by nodes that it has no links to is the case that matters
(`Forest.renumbers_of_extended`): old ids stay, and new ones are shifted.
-/

namespace Recognizer.Tree

variable {f : NodeId → NodeId} {id : NodeId}

/-- The id of a node in an arena that has some more nodes after the first ones. -/
def NodeId.shift (size extra : Nat) (id : NodeId) : NodeId :=
  if id.index < size then id else ⟨id.index + extra⟩

theorem NodeId.shift_of_lt {size extra : Nat} (old : id.index < size) : id.shift size extra = id :=
  if_pos old

theorem NodeId.shift_later (size extra k : Nat) :
    NodeId.shift size extra ⟨size + k⟩ = ⟨size + extra + k⟩ := by
  have new : ¬ size + k < size := by omega
  rw [shift, if_neg new, Nat.add_right_comm]

theorem NodeId.shift_injective {size extra : Nat} {x y : NodeId}
    (same : x.shift size extra = y.shift size extra) : x = y := by
  rcases x with ⟨i⟩
  rcases y with ⟨j⟩
  simp only [shift] at same
  split at same <;> split at same <;> simp only [mk.injEq] at same ⊢ <;> omega

/-- The context with its links renamed. -/
def Context.rename (f : NodeId → NodeId) (context : Context) : Context :=
  { context with parent := context.parent.map f, children := context.children.map f }

/-- The node with its links renamed. -/
def Node.rename (f : NodeId → NodeId) : Node → Node
  | leaf l => leaf ⟨l.kind, l.token, f l.parent⟩
  | context c => context (c.rename f)

theorem Node.context?_rename (node : Node) :
    (node.rename f).context? = node.context?.map (Context.rename f) := by
  cases node <;> rfl

theorem Node.parent?_rename (node : Node) : (node.rename f).parent? = node.parent?.map f := by
  cases node <;> rfl

theorem Node.token?_rename (node : Node) : (node.rename f).token? = node.token? := by
  cases node <;> rfl

theorem Node.children_rename (node : Node) :
    (node.rename f).children = node.children.map f := by
  cases node <;> rfl

/-- A node is as it was if its links are. -/
theorem Node.rename_eq_self {node : Node} (parent : ∀ above ∈ node.parent?, f above = above)
    (children : ∀ child ∈ node.children, f child = child) : node.rename f = node := by
  cases node with
  | leaf l =>
    have same := parent l.parent rfl
    rw [rename, same]
  | context c =>
    have parent : c.parent.map f = c.parent := (Option.map_congr parent).trans Option.map_id'
    have children : c.children.map f = c.children :=
      (List.map_congr_left children).trans (List.map_id' _)
    rw [rename, Context.rename, parent, children]

namespace Arena

/-- The nodes of an arena are in another one at the ids that `f` gives them. -/
structure Renumbers (f : NodeId → NodeId) (arena other : Arena) : Prop where
  injective : ∀ {x y}, f x = f y → x = y
  later : ∀ k, f ⟨arena.size + k⟩ = ⟨other.size + k⟩
  found : ∀ id, other.node? (f id) = (arena.node? id).map (Node.rename f)

variable {arena other : Arena}

namespace Renumbers

/-! ## What is found -/

theorem nextId (renumbers : arena.Renumbers f other) : f arena.nextId = other.nextId :=
  renumbers.later 0

theorem context? (renumbers : arena.Renumbers f other) (id : NodeId) :
    other.context? (f id) = (arena.context? id).map (Context.rename f) := by
  unfold Arena.context?
  rw [renumbers.found]
  rcases arena.node? id with - | node
  · rfl
  · exact node.context?_rename

theorem parent? (renumbers : arena.Renumbers f other) (id : NodeId) :
    other.parent? (f id) = (arena.parent? id).map f := by
  unfold Arena.parent?
  rw [renumbers.found]
  rcases arena.node? id with - | node
  · rfl
  · exact node.parent?_rename

theorem token? (renumbers : arena.Renumbers f other) (id : NodeId) :
    other.token? (f id) = arena.token? id := by
  unfold Arena.token?
  rw [renumbers.found]
  rcases arena.node? id with - | node
  · rfl
  · exact node.token?_rename

theorem stop? (renumbers : arena.Renumbers f other) (id : NodeId) :
    other.stop? (f id) = arena.stop? id := by
  unfold Arena.stop?
  rw [renumbers.context?]
  rcases arena.context? id <;> rfl

theorem children (renumbers : arena.Renumbers f other) (id : NodeId) :
    other.children (f id) = (arena.children id).map f := by
  rw [children_eq, children_eq, renumbers.found]
  rcases arena.node? id with - | node
  · rfl
  · exact node.children_rename

/-- The last child of a context is the one at the new id of its last child. -/
theorem getLast?_children (renumbers : arena.Renumbers f other) (id : NodeId) :
    (other.children (f id)).getLast? = (arena.children id).getLast?.map f := by
  rw [renumbers.children, List.getLast?_map]

theorem isLast_iff (renumbers : arena.Renumbers f other) {child : NodeId} :
    (other.children (f id)).getLast? = some (f child) ↔
      (arena.children id).getLast? = some child := by
  rw [renumbers.getLast?_children, Option.map_eq_some_iff]
  constructor
  · rintro ⟨last, isLast, same⟩
    rw [isLast, renumbers.injective same]
  · exact fun isLast => ⟨child, isLast, rfl⟩

/-! ## Revisions of both -/

theorem push (renumbers : arena.Renumbers f other) (node : Node) :
    (arena.push node).Renumbers f (other.push (node.rename f)) where
  injective := renumbers.injective
  later k := by
    have next := renumbers.later (1 + k)
    rwa [← Nat.add_assoc, ← Nat.add_assoc, ← size_push arena node,
      ← size_push other (node.rename f)] at next
  found id := by
    have isNext : f id = other.nextId ↔ id = arena.nextId := by
      rw [← renumbers.nextId]
      exact ⟨renumbers.injective, congrArg f⟩
    simp only [node?_push, isNext]
    split
    · rfl
    · exact renumbers.found id

theorem modify (renumbers : arena.Renumbers f other) (target : NodeId)
    {change change' : Node → Node}
    (commutes : ∀ node, change' (node.rename f) = (change node).rename f) :
    (arena.modify target change).Renumbers f (other.modify (f target) change') where
  injective := renumbers.injective
  later k := by
    rw [size_modify, size_modify]
    exact renumbers.later k
  found id := by
    have isTarget : f id = f target ↔ id = target := ⟨renumbers.injective, congrArg f⟩
    simp only [node?_modify, isTarget, renumbers.found]
    split
    · rw [Option.map_map, Option.map_map]
      exact Option.map_congr fun node _ => commutes node
    · rfl

theorem modify_onContext (renumbers : arena.Renumbers f other) (target : NodeId)
    {change change' : Context → Context}
    (commutes : ∀ context, change' (context.rename f) = (change context).rename f) :
    (arena.modify target (.onContext change)).Renumbers f
      (other.modify (f target) (.onContext change')) := by
  refine renumbers.modify target fun node => ?_
  cases node with
  | leaf l => rfl
  | context c => exact congrArg Node.context (commutes c)

theorem append (renumbers : arena.Renumbers f other) (target child : NodeId) :
    (arena.append target child).Renumbers f (other.append (f target) (f child)) := by
  refine renumbers.modify_onContext target fun context => ?_
  simp only [Context.append, Context.rename, Context.withChildren, List.map_append, List.map_cons,
    List.map_nil]

theorem dropLast (renumbers : arena.Renumbers f other) (target : NodeId) :
    (arena.dropLast target).Renumbers f (other.dropLast (f target)) := by
  refine renumbers.modify_onContext target fun context => ?_
  simp only [Context.dropLast, Context.rename, Context.withChildren, List.map_dropLast]

end Renumbers

/-! ## Nodes that were made for nothing -/

/-- A forest in an arena that has some more nodes is renumbered from the first of these on. -/
theorem Forest.renumbers_of_extended (forest : arena.Forest) {after : Arena} {extra : Nat}
    (size : after.size = arena.size + extra)
    (kept : ∀ id, id.index < arena.size → after.node? id = arena.node? id) :
    arena.Renumbers (.shift arena.size extra) after where
  injective := NodeId.shift_injective
  later k := by
    rw [size]
    exact NodeId.shift_later arena.size extra k
  found id := by
    by_cases old : id.index < arena.size
    · obtain ⟨node, found⟩ := exists_node?_of_lt_size old
      -- The links of a node of the forest are older than all that was added.
      have same : node.rename (.shift arena.size extra) = node := by
        refine Node.rename_eq_self (fun above isParent => ?_) fun child listed => ?_
        · have linked : arena.parent? id = some above := by
            rw [Arena.parent?, found]
            exact isParent
          exact NodeId.shift_of_lt (forest.parent_older linked).2.lt_size
        · rw [← children_of_node? found] at listed
          exact NodeId.shift_of_lt (forest.child_lt_size listed)
      rw [NodeId.shift_of_lt old, kept id old, found, Option.map_some, same]
    · have missing : arena.node? id = none := Array.getElem?_eq_none (Nat.not_lt.mp old)
      have missingToo : after.node? (id.shift arena.size extra) = none := by
        refine Array.getElem?_eq_none ?_
        change after.size ≤ _
        rw [size, NodeId.shift, if_neg old]
        change _ ≤ id.index + extra
        omega
      rw [missing, missingToo]
      rfl

end Arena

end Recognizer.Tree
