import Recognizer.Proofs.Tree.Forest

/-!
# When child lists run in no circle

A child is refused if it stands at or above its new context, which is decided by parent links, while
the traversals follow child lists.  The two disagree once a node is listed by a context that is not
its parent, and then a child can be admitted that makes a cycle.

`Mutation.Safe` is the condition on child lists that admission does not check. A run of edits stays
acyclic exactly if each of its edits is safe, and each is if the run is orderly: no child is taken
from the list of another context, and no listed context is given another parent.
-/

namespace Recognizer.Tree

open Relation (ReflTransGen TransGen)

/-- The edits that have led from the empty arena to this one, each with the arena that it was made
in. -/
inductive Edited : List (Arena × Mutation) → Arena → Prop
  | start : Edited [] .empty
  | step {past : List (Arena × Mutation)} {arena after : Arena} {mutation : Mutation}
      {answer : Option NodeId} (run : Edited past arena)
      (done : mutation.run arena = .ok answer after) : Edited ((arena, mutation) :: past) after

/-- A child does not lead to its new context by child lists. -/
def Mutation.Safe (arena : Arena) : Mutation → Prop
  | addChild id child => ¬ ReflTransGen arena.Holds child id
  | _ => True

/-- A child is in no list of another context, and a context that is given the parent of another
one is in no list of another context than that. -/
def Mutation.Orderly (arena : Arena) : Mutation → Prop
  | addChild id child => ∀ owner, arena.Holds owner child → owner = id
  | inherit id source => ∀ owner, arena.Holds owner id → arena.parent? source = some owner
  | _ => True

variable {arena : Arena} {mutation : Mutation} {past : List (Arena × Mutation)}

/-! ## Child lists after an edit -/

namespace Arena

theorem holds_push_iff {node : Node} (childless : node.children = []) {x y : NodeId} :
    (arena.push node).Holds x y ↔ arena.Holds x y := by
  unfold Holds
  rw [children_push]
  split
  · rename_i new
    rw [new, childless, children_eq, node?_nextId]
    rfl
  · rfl

theorem holds_append_iff {id child : NodeId} (isContext : arena.IsContext id) {x y : NodeId} :
    (arena.append id child).Holds x y ↔ arena.Holds x y ∨ x = id ∧ y = child := by
  unfold Holds
  rw [children_append]
  by_cases same : x = id
  · rw [if_pos ⟨same, isContext⟩, List.mem_append, List.mem_singleton]
    simp [same]
  · rw [if_neg fun both => same both.1]
    simp [same]

theorem holds_of_dropLast {id x y : NodeId} (listed : (arena.dropLast id).Holds x y) :
    arena.Holds x y := by
  unfold Holds at listed ⊢
  rw [children_dropLast] at listed
  split at listed
  · exact List.dropLast_subset _ listed
  · exact listed

theorem holds_modify_onContext_iff {id : NodeId} {change : Context → Context}
    (keeps : ∀ context, (change context).children = context.children) {x y : NodeId} :
    (arena.modify id (.onContext change)).Holds x y ↔ arena.Holds x y := by
  unfold Holds
  rw [children_modify_onContext keeps]

theorem holds_modify_withParent_iff {target parent x y : NodeId} :
    (arena.modify target (.withParent parent)).Holds x y ↔ arena.Holds x y := by
  unfold Holds
  rw [children_modify_withParent]

end Arena

/-! ## Acyclic arenas -/

/-- A new node has no children, so that listing it makes no cycle. -/
theorem Arena.acyclic_push_append (node : Node) {id : NodeId} (childless : node.children = [])
    (isContext : arena.IsContext id) (acyclic : Acyclic arena.Holds) :
    Acyclic ((arena.push node).append id arena.nextId).Holds := by
  have insert (x y : NodeId) : ((arena.push node).append id arena.nextId).Holds x y ↔
      arena.Holds x y ∨ x = id ∧ y = arena.nextId := by
    rw [Arena.holds_append_iff (isContext.push node), Arena.holds_push_iff childless]
  refine (acyclic.insert_iff insert).mpr fun path => ?_
  rcases Relation.reflTransGen_iff_eq_or_transGen.mp path with same | path
  · exact isContext.ne_nextId same
  · obtain ⟨child, listed, -⟩ := Relation.TransGen.head'_iff.mp path
    have isContextToo := Arena.isContext_of_mem_children listed
    exact isContextToo.ne_nextId rfl

/-- An admitted edit keeps an arena acyclic exactly if it is safe. -/
theorem Mutation.acyclic_apply_iff (admitted : mutation.Admitted arena)
    (acyclic : Acyclic arena.Holds) :
    Acyclic (mutation.apply arena).Holds ↔ mutation.Safe arena := by
  cases mutation with
  | create parent invokingState rule =>
    exact iff_of_true (acyclic.mono fun x y => (Arena.holds_push_iff rfl).mp) trivial
  | inherit id source =>
    obtain ⟨isSource, -⟩ := admitted
    obtain ⟨giver, found⟩ := Option.isSome_iff_exists.mp isSource
    simp only [apply, found]
    refine iff_of_true (acyclic.mono fun x y => (Arena.holds_modify_onContext_iff ?_).mp) trivial
    exact fun _ => rfl
  | addLeaf id kind token =>
    have isContext : arena.IsContext id := admitted
    exact iff_of_true
      (Arena.acyclic_push_append (.leaf ⟨kind, token, id⟩) rfl isContext acyclic) trivial
  | addChild id child =>
    obtain ⟨-, -, isContext⟩ := admitted
    refine acyclic.insert_iff fun x y => ?_
    unfold apply
    rw [Arena.holds_append_iff (Arena.isContext_modify_withParent.mpr isContext),
      Arena.holds_modify_withParent_iff]
  | removeLastChild id =>
    exact iff_of_true (acyclic.mono fun x y => Arena.holds_of_dropLast) trivial
  | setStart id token | setStop id token | setAlt id token =>
    refine iff_of_true (acyclic.mono fun x y => (Arena.holds_modify_onContext_iff ?_).mp) trivial
    exact fun _ => rfl

/-- A run passes acyclic arenas only, and leads to one, exactly if all its edits are safe. -/
theorem Edited.acyclic_iff_safe (run : Edited past arena) :
    (∀ moment ∈ past, Acyclic moment.1.Holds) ∧ Acyclic arena.Holds ↔
      ∀ moment ∈ past, moment.2.Safe moment.1 := by
  induction run with
  | start =>
    refine iff_of_true ⟨by simp, ?_⟩ (by simp)
    exact acyclic_iff_cycleFree.mpr fun id => Arena.Forest.empty.endsBelow id
  | @step past arena after mutation answer run done ih =>
    obtain ⟨admitted, -, rfl⟩ := Mutation.run_eq_ok_iff.mp done
    simp only [List.forall_mem_cons]
    constructor
    · intro acyclicAll
      obtain ⟨⟨acyclic, before⟩, acyclicAfter⟩ := acyclicAll
      exact ⟨(Mutation.acyclic_apply_iff admitted acyclic).mp acyclicAfter, ih.mp ⟨before, acyclic⟩⟩
    · intro safeAll
      obtain ⟨safe, safeBefore⟩ := safeAll
      obtain ⟨before, acyclic⟩ := ih.mpr safeBefore
      exact ⟨⟨acyclic, before⟩, (Mutation.acyclic_apply_iff admitted acyclic).mpr safe⟩

/-! ## Orderly runs -/

/-- Every node in a child list has the owner of the list as its parent. -/
def Arena.Linked (arena : Arena) : Prop :=
  ∀ id child, arena.Holds id child → arena.HasParent child id

theorem Arena.Linked.hasParent (linked : arena.Linked) {x y : NodeId}
    (path : ReflTransGen arena.Holds x y) : ReflTransGen arena.HasParent y x := by
  induction path with
  | refl => exact .refl
  | tail _ listed ih => exact .head (linked _ _ listed) ih

/-- While parent links follow the child lists, the search upwards finds every cycle. -/
theorem Mutation.safe_of_linked (linked : arena.Linked) (admitted : mutation.Admitted arena) :
    mutation.Safe arena := by
  cases mutation with
  | addChild id child =>
    obtain ⟨guard, -, -⟩ := admitted
    intro path
    have met := (Arena.meets_eq_true_iff guard).mpr (linked.hasParent path)
    cases met
  | _ => trivial

theorem Arena.Linked.of_frame (linked : arena.Linked) {after : Arena}
    (fewer : ∀ x y, after.Holds x y → arena.Holds x y)
    (same : ∀ x, x.index < arena.size → after.parent? x = arena.parent? x) : after.Linked := by
  intro id child listed
  have link := linked id child (fewer id child listed)
  exact (same child (lt_size_of_parent? link)).trans link

/-- An orderly edit keeps parent links and child lists in agreement. -/
theorem Mutation.linked_apply (linked : arena.Linked) (admitted : mutation.Admitted arena)
    (orderly : mutation.Orderly arena) : (mutation.apply arena).Linked := by
  have pushed (node : Node) (x : NodeId) (inside : x.index < arena.size) :
      (arena.push node).parent? x = arena.parent? x := by
    have old : x ≠ arena.nextId := by
      intro new
      subst new
      exact Nat.lt_irrefl _ inside
    rw [Arena.parent?_push, if_neg old]
  cases mutation with
  | create parent invokingState rule =>
    exact linked.of_frame (fun x y => (Arena.holds_push_iff rfl).mp) (pushed _)
  | inherit id source =>
    obtain ⟨isSource, isContext⟩ := admitted
    obtain ⟨giver, found⟩ := Option.isSome_iff_exists.mp isSource
    obtain ⟨context, node⟩ := Arena.isContext_iff.mp isContext
    simp only [apply, found]
    intro owner child listed
    have keeps (c : Context) : (c.inherit giver).children = c.children := rfl
    have before := (Arena.holds_modify_onContext_iff keeps).mp listed
    unfold Arena.HasParent
    rw [Arena.parent?_modify]
    split
    · rename_i here
      subst here
      rw [node]
      exact (Arena.parent?_of_context? found).symm.trans (orderly owner before)
    · exact linked owner child before
  | addLeaf id kind token =>
    have isContext : arena.IsContext id := admitted
    intro owner child listed
    unfold Arena.HasParent apply
    rw [Arena.parent?_append]
    rcases (Arena.holds_append_iff (isContext.push _)).mp listed with old | ⟨rfl, rfl⟩
    · have link := linked owner child ((Arena.holds_push_iff rfl).mp old)
      exact (pushed _ child (Arena.lt_size_of_parent? link)).trans link
    · exact Arena.parent?_push_nextId arena _
  | addChild id child =>
    obtain ⟨-, inside, isContext⟩ := admitted
    intro owner x listed
    unfold Arena.HasParent apply
    rw [Arena.parent?_append, Arena.parent?_modify_withParent inside]
    have isContextStill : (arena.modify child (.withParent id)).IsContext id :=
      Arena.isContext_modify_withParent.mpr isContext
    rcases (Arena.holds_append_iff isContextStill).mp listed with old | ⟨rfl, rfl⟩
    · have before := Arena.holds_modify_withParent_iff.mp old
      -- An older entry for the child itself survives only if its owner is the new parent.
      split
      · rename_i here
        subst here
        rw [orderly owner before]
      · exact linked owner x before
    · exact if_pos rfl
  | removeLastChild id =>
    exact linked.of_frame (fun x y => Arena.holds_of_dropLast)
      fun x _ => Arena.parent?_dropLast arena id x
  | setStart id token | setStop id token | setAlt id token =>
    refine linked.of_frame (fun x y => (Arena.holds_modify_onContext_iff ?_).mp)
      fun x _ => Arena.parent?_modify_onContext ?_ x
    · exact fun _ => rfl
    · exact fun _ => rfl

theorem Edited.linked (run : Edited past arena)
    (orderly : ∀ moment ∈ past, moment.2.Orderly moment.1) :
    arena.Linked ∧ ∀ moment ∈ past, moment.2.Safe moment.1 := by
  induction run with
  | start =>
    refine ⟨fun id child listed => ?_, by simp⟩
    cases listed
  | @step past arena after mutation answer run done ih =>
    obtain ⟨admitted, -, rfl⟩ := Mutation.run_eq_ok_iff.mp done
    obtain ⟨orderlyNow, orderlyBefore⟩ := List.forall_mem_cons.mp orderly
    obtain ⟨linked, safeBefore⟩ := ih orderlyBefore
    have safe := Mutation.safe_of_linked linked admitted
    exact ⟨Mutation.linked_apply linked admitted orderlyNow,
      List.forall_mem_cons.mpr ⟨safe, safeBefore⟩⟩

/-- A run passes acyclic arenas only if and only if no child that it adds leads to its new context
by child lists. Admission is enough for that in an orderly run, and an arena is acyclic if and
only if all traversals downwards end. -/
theorem Edited.child_cycle_iff (run : Edited past arena) :
    ((∀ moment ∈ past, Acyclic moment.1.Holds) ∧ Acyclic arena.Holds ↔
      ∀ moment ∈ past, moment.2.Safe moment.1) ∧
    ((∀ moment ∈ past, moment.2.Orderly moment.1) → Acyclic arena.Holds) ∧
    (Acyclic arena.Holds ↔ ∀ names id, (arena.text? id).isSome ∧ (arena.walk? id).isSome ∧
      (arena.snapshot? names id).isSome ∧ (arena.bracketed? names id).isSome) := by
  refine ⟨run.acyclic_iff_safe, fun orderly => ?_, ?_⟩
  · exact (run.acyclic_iff_safe.mpr (run.linked orderly).2).2
  · rw [acyclic_iff_cycleFree]
    simp only [Arena.isSome_text?, Arena.isSome_walk?, Arena.isSome_snapshot?,
      Arena.isSome_bracketed?]
    exact ⟨fun free _ id => ⟨free id, free id, free id, free id⟩,
      fun ends id => (ends (fun _ => none) id).1⟩

theorem Edited.andThen (run : Edited past arena) (mutation : Mutation)
    (admitted : mutation.Admitted arena) :
    Edited ((arena, mutation) :: past) (mutation.apply arena) :=
  run.step (Mutation.run_of_admitted admitted)

theorem Edited.acyclic_of_nested :
    ∃ past arena, Edited past arena ∧
      past.map Prod.snd =
        [.addChild ⟨0⟩ ⟨1⟩, .create none none (some 1), .create none none (some 0)] ∧
      Acyclic arena.Holds := by
  have created := (Edited.start.andThen (.create none none (some 0)) trivial).andThen
    (.create none none (some 1)) trivial
  have run := created.andThen (.addChild ⟨0⟩ ⟨1⟩) ⟨rfl, by decide, by decide⟩
  refine ⟨_, _, run, rfl, run.child_cycle_iff.2.1 ?_⟩
  simp only [List.forall_mem_cons, Mutation.Orderly]
  refine ⟨?_, trivial, trivial, by simp⟩
  intro owner listed
  rcases owner with ⟨_ | _ | n⟩
  · rfl
  · cases listed
  · cases listed

/-- The nodes that an edit names. -/
def Mutation.named : Mutation → List NodeId
  | create parent _ _ => parent.toList
  | inherit id source => [id, source]
  | addChild id child => [id, child]
  | addLeaf id _ _ | removeLastChild id | setStart id _ | setStop id _ | setAlt id _ => [id]

theorem Arena.no_text_of_cycle {x : NodeId} (y : NodeId) (down : arena.Holds x y)
    (up : arena.Holds y x) : TransGen arena.Holds x x ∧ arena.text? x = none := by
  have cycle : TransGen arena.Holds x x := .tail (.single down) up
  refine ⟨cycle, ?_⟩
  rw [← Option.not_isSome_iff_eq_none, isSome_text?]
  exact fun free => free x .refl cycle

/-- A node that two contexts list has one of them as its parent; the other one is admitted as its
child. -/
theorem Edited.exists_cycle :
    ∃ past arena, Edited past arena ∧
      past.map Prod.snd =
        [.addChild ⟨1⟩ ⟨0⟩, .addChild ⟨2⟩ ⟨1⟩, .addChild ⟨0⟩ ⟨1⟩, .create none none (some 2),
          .create none none (some 1), .create none none (some 0)] ∧
      (∀ moment ∈ past, ∀ id ∈ moment.2.named, id.index < moment.1.size) ∧
      TransGen arena.Holds ⟨0⟩ ⟨0⟩ ∧ arena.text? ⟨0⟩ = none := by
  have created := ((Edited.start.andThen (.create none none (some 0)) trivial).andThen
    (.create none none (some 1)) trivial).andThen (.create none none (some 2)) trivial
  have listed := (created.andThen (.addChild ⟨0⟩ ⟨1⟩) ⟨rfl, by decide, by decide⟩).andThen
    (.addChild ⟨2⟩ ⟨1⟩) ⟨rfl, by decide, by decide⟩
  have run := listed.andThen (.addChild ⟨1⟩ ⟨0⟩) ⟨rfl, by decide, by decide⟩
  refine ⟨_, _, run, rfl, by decide, Arena.no_text_of_cycle ⟨1⟩ ?_ ?_⟩
  · decide
  · decide

end Recognizer.Tree
