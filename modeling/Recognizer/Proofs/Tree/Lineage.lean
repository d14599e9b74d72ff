import Recognizer.Proofs.Tree.Traversal
import Recognizer.Tree.Description

/-!
# Lineages

The upward queries collect the nodes that `follow` passes.  `follow_eq_some_iff` says what that is:
the list that begins with the node, goes on as `next` says and stops where `next` stops
(`Follows`), provided that the budget covers it.

For parent links that run in no circle the budget always covers it, so that the lineage of a node is
the one list of that kind (`lineage?_eq_some_iff`).
-/

namespace Recognizer.Tree

open Relation (ReflTransGen TransGen)

/-- Each element of a list has the one behind it as its `next`, and the last one has none. -/
def Follows (next : NodeId → Option NodeId) : List NodeId → Prop
  | [] => True
  | id :: rest => next id = rest.head? ∧ Follows next rest

theorem follow_eq_some_iff {next : NodeId → Option NodeId} {budget : Nat} {id : NodeId}
    {ids : List NodeId} :
    follow next budget id = some ids ↔
      ids.head? = some id ∧ Follows next ids ∧ ids.length ≤ budget := by
  induction budget generalizing id ids with
  | zero =>
    refine iff_of_false (by simp [follow]) fun described => ?_
    obtain ⟨first, -, short⟩ := described
    have empty : ids = [] := List.eq_nil_of_length_eq_zero (Nat.le_zero.mp short)
    rw [empty] at first
    cases first
  | succ budget ih =>
    unfold follow
    rcases linked : next id with - | above
    · constructor
      · intro found
        cases found
        exact ⟨rfl, ⟨linked, trivial⟩, Nat.le_add_left _ _⟩
      · intro described
        obtain ⟨first, follows, -⟩ := described
        obtain ⟨rest, rfl⟩ := List.head?_eq_some_iff.mp first
        have last : rest = [] := List.head?_eq_none_iff.mp (follows.1.symm.trans linked)
        rw [last]
    · simp only [Option.map_eq_some_iff, ih]
      constructor
      · intro found
        obtain ⟨rest, ⟨first, follows, short⟩, rfl⟩ := found
        exact ⟨rfl, ⟨linked.trans first.symm, follows⟩, Nat.succ_le_succ short⟩
      · intro described
        obtain ⟨first, follows, short⟩ := described
        obtain ⟨rest, rfl⟩ := List.head?_eq_some_iff.mp first
        have next := follows.1.symm.trans linked
        exact ⟨rest, ⟨next, follows.2, Nat.le_of_succ_le_succ short⟩, rfl⟩

namespace Arena

variable {arena : Arena} {names : RuleNames} {id : NodeId} {ids above : List NodeId}

theorem transGen_of_follows (follows : Follows arena.parent? (id :: above)) {x : NodeId}
    (member : x ∈ above) : TransGen arena.HasParent id x := by
  induction above generalizing id with
  | nil => cases member
  | cons y above ih =>
    have edge : arena.HasParent id y := follows.1
    rcases List.mem_cons.mp member with rfl | later
    · exact .single edge
    · exact .head edge (ih follows.2 later)

/-- Without circles, no node is passed twice on the way up. -/
theorem nodup_of_follows (acyclic : Acyclic arena.HasParent) (follows : Follows arena.parent? ids) :
    ids.Nodup := by
  induction ids with
  | nil => exact List.nodup_nil
  | cons id above ih =>
    refine List.nodup_cons.mpr ⟨fun again => ?_, ih follows.2⟩
    exact acyclic id (transGen_of_follows follows again)

/-- All nodes of a lineage but the last have a parent, and so they exist. -/
theorem length_le_pathLimit (acyclic : Acyclic arena.HasParent)
    (follows : Follows arena.parent? ids) : ids.length ≤ arena.pathLimit := by
  have inside : ∀ ids, Follows arena.parent? ids → ∀ x ∈ ids.dropLast, x.index < arena.size := by
    intro ids follows
    induction ids with
    | nil => simp
    | cons id above ih =>
      rcases above with - | ⟨y, above⟩
      · simp
      · have here : id.index < arena.size := lt_size_of_parent? follows.1
        rw [List.dropLast_cons_cons]
        exact List.forall_mem_cons.mpr ⟨here, ih follows.2⟩
  have distinct : ids.dropLast.Nodup :=
    (nodup_of_follows acyclic follows).sublist (List.dropLast_sublist ids)
  have bound := length_le_of_nodup_of_lt distinct (inside ids follows)
  rw [List.length_dropLast] at bound
  unfold pathLimit
  omega

theorem lineage?_eq_some_iff (acyclic : Acyclic arena.HasParent) :
    arena.lineage? id = some ids ↔ ids.head? = some id ∧ Follows arena.parent? ids := by
  unfold lineage?
  rw [follow_eq_some_iff]
  constructor
  · exact fun found => ⟨found.1, found.2.1⟩
  · exact fun described => ⟨described.1, described.2, length_le_pathLimit acyclic described.2⟩

/-- Every parent link names an existing node. -/
def ParentsExist (arena : Arena) : Prop :=
  ∀ id above, arena.HasParent id above → above.index < arena.size

/-- A node has fewer ancestors than there are nodes. -/
theorem exists_depth?_lt (acyclic : Acyclic arena.HasParent) (parents : arena.ParentsExist)
    (here : id.index < arena.size) :
    ∃ depth, arena.depth? id = some depth ∧ depth < arena.size := by
  have ends : arena.EndsAbove id := acyclic_iff_cycleFree.mp acyclic id
  obtain ⟨ids, found⟩ := Option.isSome_iff_exists.mp (isSome_lineage?.mpr ends)
  obtain ⟨first, follows⟩ := (lineage?_eq_some_iff acyclic).mp found
  obtain ⟨above, rfl⟩ := List.head?_eq_some_iff.mp first
  have all : ∀ x ∈ id :: above, x.index < arena.size := by
    refine List.forall_mem_cons.mpr ⟨here, fun x member => ?_⟩
    obtain ⟨below, -, link⟩ := TransGen.tail'_iff.mp (transGen_of_follows follows member)
    exact parents below x link
  have bound := length_le_of_nodup_of_lt (nodup_of_follows acyclic follows) all
  rw [List.length_cons] at bound
  refine ⟨above.length, ?_, bound⟩
  rw [depth?, found]
  rfl

/-- The way through contexts only ends wherever the way upwards does. -/
theorem isSome_invocationStack? (ends : arena.EndsAbove id) :
    (arena.invocationStack? names id).isSome := by
  rw [invocationStack?, enclosing?, Option.isSome_map, Option.isSome_map]
  have linked : ∀ x above, (arena.context? x).bind Context.parent = some above →
      arena.HasParent x above := by
    intro x above link
    obtain ⟨context, found, parent⟩ := Option.bind_eq_some_iff.mp link
    exact (parent?_of_context? found).trans parent
  refine (isSome_follow _).mpr ((endsWithin_iff_cycleFree fun x goesOn => ?_).mpr ?_)
  · obtain ⟨above, link⟩ := Option.isSome_iff_exists.mp (Option.isSome_map.symm.trans goesOn)
    exact lt_size_of_parent? (linked x above link)
  · refine CycleFree.mono ends fun x y step => linked x y ?_
    obtain ⟨ys, next, member⟩ := step
    obtain ⟨above, link, rfl⟩ := Option.map_eq_some_iff.mp next
    rw [List.mem_singleton.mp member]
    exact link

end Arena

end Recognizer.Tree
