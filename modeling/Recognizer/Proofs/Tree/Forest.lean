import Recognizer.Proofs.Tree.Outcome
import Recognizer.Proofs.Tree.Traversal

/-!
# Forests

A `Forest` is an arena whose parent links and child lists fit together.  Parents are older than
their children, so that ids grow along every path, and a child list names its owner's children
from the oldest to the youngest.

The four revisions that a construction makes keep forests: adding a node without children below an
existing context (`Forest.push`), appending the youngest child of a context to its list
(`Forest.append`), taking the last child out of a list (`Forest.dropLast`), and changing what a
context says of itself (`Forest.modify_onContext`).
-/

namespace Recognizer.Tree.Arena

open Relation (ReflTransGen TransGen)

/-- Parent links and child lists fit together. -/
structure Forest (arena : Arena) : Prop where
  /-- A parent link names an older node, which is a context. -/
  parent_older : ∀ {id above}, arena.parent? id = some above →
    above.index < id.index ∧ arena.IsContext above
  /-- A node in a child list links to the owner of the list. -/
  parent_of_child : ∀ {id child}, child ∈ arena.children id → arena.parent? child = some id
  /-- Child lists are ordered by age. -/
  children_ordered : ∀ id, (arena.children id).Pairwise fun x y => x.index < y.index

variable {arena : Arena} {id child : NodeId}

theorem Forest.empty : Forest .empty where
  parent_older := by
    intro id above linked
    cases linked
  parent_of_child := by
    intro id child listed
    cases listed
  children_ordered _ := List.Pairwise.nil

namespace Forest

/-! ## What holds in a forest -/

theorem child_younger (forest : arena.Forest) (listed : child ∈ arena.children id) :
    id.index < child.index :=
  (forest.parent_older (forest.parent_of_child listed)).1

theorem child_lt_size (forest : arena.Forest) (listed : child ∈ arena.children id) :
    child.index < arena.size :=
  lt_size_of_parent? (forest.parent_of_child listed)

/-- No node is in two child lists. -/
theorem owner_unique (forest : arena.Forest) {other : NodeId} (listed : child ∈ arena.children id)
    (listedToo : child ∈ arena.children other) : id = other :=
  Option.some.inj ((forest.parent_of_child listed).symm.trans (forest.parent_of_child listedToo))

/-- No node is twice in a child list. -/
theorem nodup_children (forest : arena.Forest) (id : NodeId) : (arena.children id).Nodup :=
  (forest.children_ordered id).imp fun less same => by
    subst same
    exact Nat.lt_irrefl _ less

theorem endsBelow (forest : arena.Forest) (id : NodeId) : arena.EndsBelow id :=
  cycleFree_of_lt NodeId.index fun _ _ listed => forest.child_younger listed

theorem ancestor_not_younger (forest : arena.Forest) {above : NodeId}
    (path : ReflTransGen arena.HasParent id above) : above.index ≤ id.index := by
  induction path with
  | refl => exact Nat.le_refl _
  | tail _ linked ih => exact Nat.le_trans (Nat.le_of_lt (forest.parent_older linked).1) ih

theorem endsAbove (forest : arena.Forest) (id : NodeId) : arena.EndsAbove id := by
  intro x _ round
  obtain ⟨above, linked, path⟩ := Relation.TransGen.head'_iff.mp round
  have older := (forest.parent_older linked).1
  have notYounger := forest.ancestor_not_younger path
  omega

/-- A node that is younger than a context does not stand at or above it. -/
theorem isAtOrAbove?_of_younger (forest : arena.Forest) (younger : id.index < child.index) :
    arena.isAtOrAbove? child id = some false := by
  obtain ⟨met, answer, reaches⟩ := exists_isAtOrAbove?_eq child (forest.endsAbove id)
  cases met with
  | false => exact answer
  | true =>
    have notYounger := forest.ancestor_not_younger (reaches.mp rfl)
    omega

/-- A node that links to a context already is added to its children without further ado. -/
theorem addChild_of_linked (forest : arena.Forest) (linked : arena.parent? child = some id) :
    Edit.addChild id child arena = .ok () (arena.append id child) := by
  obtain ⟨older, isContext⟩ := forest.parent_older linked
  rw [Edit.addChild_eq, forest.isAtOrAbove?_of_younger older]
  simp only [if_pos (lt_size_of_parent? linked), if_pos isContext,
    modify_withParent_of_parent? linked]

/-! ## Revisions that keep a forest -/

theorem push (forest : arena.Forest) {node : Node} (childless : node.children = [])
    (linked : ∀ above, node.parent? = some above → arena.IsContext above) :
    (arena.push node).Forest where
  parent_older := by
    intro id above link
    rw [parent?_push] at link
    split at link
    · rename_i new
      subst new
      exact ⟨(linked above link).lt_size, (linked above link).push node⟩
    · obtain ⟨older, isContext⟩ := forest.parent_older link
      exact ⟨older, isContext.push node⟩
  parent_of_child := by
    intro id child listed
    rw [children_push] at listed
    split at listed
    · rw [childless] at listed
      cases listed
    · have old : child ≠ arena.nextId := by
        rintro rfl
        exact Nat.lt_irrefl _ (forest.child_lt_size listed)
      rw [parent?_push, if_neg old]
      exact forest.parent_of_child listed
  children_ordered := by
    intro id
    rw [children_push]
    split
    · rw [childless]
      exact List.Pairwise.nil
    · exact forest.children_ordered id

theorem append (forest : arena.Forest) (linked : arena.parent? child = some id)
    (youngest : ∀ x ∈ arena.children id, x.index < child.index) :
    (arena.append id child).Forest where
  parent_older := by
    intro x above link
    rw [parent?_append] at link
    obtain ⟨older, isContext⟩ := forest.parent_older link
    exact ⟨older, isContext_modify_onContext.mpr isContext⟩
  parent_of_child := by
    intro owner x listed
    rw [parent?_append]
    rw [children_append] at listed
    split at listed
    · rename_i here
      obtain ⟨rfl, -⟩ := here
      rcases List.mem_append.mp listed with old | new
      · exact forest.parent_of_child old
      · rw [List.mem_singleton.mp new]
        exact linked
    · exact forest.parent_of_child listed
  children_ordered := by
    intro owner
    rw [children_append]
    split
    · rename_i here
      obtain ⟨rfl, -⟩ := here
      refine List.pairwise_append.mpr ⟨forest.children_ordered owner, ?_, ?_⟩
      · exact List.pairwise_singleton _ _
      intro x old y new
      rw [List.mem_singleton.mp new]
      exact youngest x old
    · exact forest.children_ordered owner

theorem dropLast (forest : arena.Forest) (id : NodeId) : (arena.dropLast id).Forest where
  parent_older := by
    intro x above link
    rw [parent?_dropLast] at link
    obtain ⟨older, isContext⟩ := forest.parent_older link
    exact ⟨older, isContext_modify_onContext.mpr isContext⟩
  parent_of_child := by
    intro owner x listed
    rw [parent?_dropLast]
    rw [children_dropLast] at listed
    split at listed
    · exact forest.parent_of_child (List.dropLast_subset _ listed)
    · exact forest.parent_of_child listed
  children_ordered := by
    intro owner
    rw [children_dropLast]
    split
    · exact (forest.children_ordered owner).sublist (List.dropLast_sublist _)
    · exact forest.children_ordered owner

theorem modify_onContext (forest : arena.Forest) {change : Context → Context}
    (keepsParent : ∀ context, (change context).parent = context.parent)
    (keepsChildren : ∀ context, (change context).children = context.children) :
    (arena.modify id (.onContext change)).Forest where
  parent_older := by
    intro x above link
    rw [parent?_modify_onContext keepsParent] at link
    obtain ⟨older, isContext⟩ := forest.parent_older link
    exact ⟨older, isContext_modify_onContext.mpr isContext⟩
  parent_of_child := by
    intro owner x listed
    rw [parent?_modify_onContext keepsParent]
    rw [children_modify_onContext keepsChildren] at listed
    exact forest.parent_of_child listed
  children_ordered := by
    intro owner
    rw [children_modify_onContext keepsChildren]
    exact forest.children_ordered owner

theorem push_below (forest : arena.Forest) {node : Node} (childless : node.children = [])
    (linked : node.parent? = some id) (isContext : arena.IsContext id) :
    (arena.push node).Forest := by
  refine forest.push childless fun above link => ?_
  rw [linked] at link
  cases link
  exact isContext

/-- A new node takes its place at the end of its parent's child list. -/
theorem push_append (forest : arena.Forest) {node : Node} (childless : node.children = [])
    (linked : node.parent? = some id) (isContext : arena.IsContext id) :
    ((arena.push node).append id arena.nextId).Forest := by
  refine (forest.push_below childless linked isContext).append ?_ ?_
  · rw [parent?_push_nextId]
    exact linked
  · intro x listed
    rw [children_push, if_neg isContext.ne_nextId] at listed
    exact forest.child_lt_size listed

end Forest

end Recognizer.Tree.Arena
