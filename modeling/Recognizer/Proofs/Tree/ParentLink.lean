import Recognizer.Proofs.Tree.Acyclic
import Recognizer.Proofs.Tree.Lineage
import Recognizer.Proofs.Tree.Refusal

/-!
# When parent links run in no circle

Every edit gives at most one node a new parent link, and `Mutation.link` says which one, also for an
edit that is refused half way.  A circle arises exactly if the new parent has led to that node
before (`Arena.acyclic_relink_iff`).

New nodes have nothing below them, and a child is searched for above its new context, so that only
`inherit` can close a circle.  `Mutation.acyclic_leave_iff` says when it does, and
`Tried.parent_cycle_iff` puts this together for runs that go on after refusals.
-/

namespace Recognizer.Tree

open Relation (ReflTransGen TransGen)

/-! ## The link that an edit writes -/

namespace Mutation

/-- The node to which an edit gives a parent link, and that link. -/
def link (arena : Arena) : Mutation → Option (NodeId × Option NodeId)
  | create parent _ _ => some (arena.nextId, parent)
  | inherit id source =>
    if arena.IsContext source ∧ arena.IsContext id then some (id, arena.parent? source) else none
  | addLeaf id _ _ => some (arena.nextId, some id)
  | addChild id child =>
    if arena.isAtOrAbove? child id = some false ∧ child.index < arena.size then
      some (child, some id)
    else none
  | removeLastChild _ | setStart _ _ | setStop _ _ | setAlt _ _ => none

/-- The context that is to take over the parent of another one is a proper ancestor of it. -/
def Overtakes (arena : Arena) : Mutation → Prop
  | inherit id source => TransGen arena.HasParent source id
  | _ => False

end Mutation

variable {arena after : Arena} {mutation : Mutation} {past : List (Arena × Mutation)}

/-- The parent of a node after a link has been written. -/
def Arena.relinkedParent? (arena : Arena) (link : Option (NodeId × Option NodeId)) (id : NodeId) :
    Option NodeId :=
  match link with
  | some (node, parent) => if id = node then parent else arena.parent? id
  | none => arena.parent? id

theorem Arena.parent?_push_leaf (leaf : Leaf) (id : NodeId) :
    (arena.push (.leaf leaf)).parent? id =
      arena.relinkedParent? (some (arena.nextId, some leaf.parent)) id :=
  Arena.parent?_push arena (.leaf leaf) id

theorem Mutation.parent?_apply (admitted : mutation.Admitted arena) (id : NodeId) :
    (mutation.apply arena).parent? id = arena.relinkedParent? (mutation.link arena) id := by
  cases mutation with
  | create parent invokingState rule => exact Arena.parent?_push arena _ id
  | inherit target source =>
    obtain ⟨isSource, isContext⟩ := admitted
    obtain ⟨giver, found⟩ := Option.isSome_iff_exists.mp isSource
    obtain ⟨context, node⟩ := Arena.isContext_iff.mp isContext
    have link := Arena.parent?_of_context? found
    have admitted : arena.IsContext source ∧ arena.IsContext target := ⟨isSource, isContext⟩
    simp only [apply, found, Mutation.link, Arena.relinkedParent?, if_pos admitted]
    rw [Arena.parent?_modify]
    split
    · rename_i here
      rw [here, node, link]
      rfl
    · rfl
  | addLeaf target kind token =>
    exact (Arena.parent?_append _ target _ id).trans (Arena.parent?_push_leaf _ id)
  | addChild target child =>
    obtain ⟨guard, inside, -⟩ := admitted
    have passed : arena.isAtOrAbove? child target = some false ∧ child.index < arena.size :=
      ⟨guard, inside⟩
    simp only [apply, Mutation.link, Arena.relinkedParent?, if_pos passed]
    rw [Arena.parent?_append, Arena.parent?_modify_withParent inside]
  | removeLastChild target => exact Arena.parent?_dropLast arena target id
  | setStart target token | setStop target token | setAlt target token =>
    refine Arena.parent?_modify_onContext ?_ id
    exact fun _ => rfl

theorem Mutation.parent?_residue (refused : ¬ mutation.Admitted arena) (id : NodeId) :
    (mutation.residue arena).parent? id = arena.relinkedParent? (mutation.link arena) id := by
  cases mutation with
  | create parent invokingState rule => exact absurd trivial refused
  | inherit target source =>
    have unlinked : (inherit target source).link arena = none := if_neg refused
    rw [unlinked]
    rfl
  | addLeaf target kind token => exact Arena.parent?_push_leaf _ id
  | addChild target child =>
    by_cases passed : arena.isAtOrAbove? child target = some false ∧ child.index < arena.size
    · simp only [residue, Mutation.link, if_pos passed]
      exact Arena.parent?_modify_withParent passed.2 id
    · simp only [residue, Mutation.link, if_neg passed]
      rfl
  | removeLastChild target | setStart target token | setStop target token | setAlt target token =>
    rfl

/-- An edit writes its link whether it is carried out or not. -/
theorem Mutation.parent?_leave (id : NodeId) :
    (mutation.leave arena).parent? id = arena.relinkedParent? (mutation.link arena) id := by
  by_cases admitted : mutation.Admitted arena
  · rw [leave_of_admitted admitted, parent?_apply admitted]
  · rw [leave_of_refused admitted, parent?_residue admitted]

/-! ## Circles -/

theorem Arena.acyclic_relink_iff (acyclic : Acyclic arena.HasParent) {node : NodeId}
    {parent : Option NodeId}
    (relinked : ∀ id, after.parent? id = arena.relinkedParent? (some (node, parent)) id) :
    Acyclic after.HasParent ↔
      ∀ target, parent = some target → ¬ ReflTransGen arena.HasParent target node := by
  have step (x y : NodeId) : after.HasParent x y ↔
      (x ≠ node ∧ arena.HasParent x y) ∨ x = node ∧ parent = some y := by
    unfold HasParent
    rw [relinked, relinkedParent?]
    by_cases here : x = node <;> simp [here]
  rcases parent with - | target
  · refine iff_of_true (acyclic.mono fun x y link => ?_) (by simp)
    rcases (step x y).mp link with ⟨-, old⟩ | ⟨-, new⟩
    · exact old
    · cases new
  · have redirect (x y : NodeId) : after.HasParent x y ↔
        (x ≠ node ∧ arena.HasParent x y) ∨ x = node ∧ y = target := by
      rw [step, Option.some.injEq, eq_comm (a := target)]
    rw [acyclic.redirect_iff redirect]
    simp

/-- Nothing leads up to a node that does not exist yet. -/
theorem Arena.ParentsExist.not_reaches_nextId (parents : arena.ParentsExist) {id : NodeId}
    (inside : id.index < arena.size) : ¬ ReflTransGen arena.HasParent id arena.nextId := by
  intro path
  have outside : arena.nextId.index = arena.size := rfl
  rcases Relation.ReflTransGen.cases_tail path with same | ⟨below, -, link⟩
  · rw [← same] at inside
    omega
  · have older := parents below _ link
    omega

/-- An edit closes a circle exactly if it is carried out and overtakes. -/
theorem Mutation.acyclic_leave_iff (acyclic : Acyclic arena.HasParent)
    (parents : arena.ParentsExist) (named : ∀ id ∈ mutation.named, id.index < arena.size) :
    Acyclic (mutation.leave arena).HasParent ↔
      (mutation.Admitted arena → ¬ mutation.Overtakes arena) := by
  have links (id : NodeId) : (mutation.leave arena).parent? id =
      arena.relinkedParent? (mutation.link arena) id := Mutation.parent?_leave id
  have untouched (unlinked : mutation.link arena = none) :
      Acyclic (mutation.leave arena).HasParent := by
    refine acyclic.mono fun x y link => ?_
    unfold Arena.HasParent at link
    rw [links, unlinked] at link
    exact link
  cases mutation with
  | create parent invokingState rule =>
    refine iff_of_true ((Arena.acyclic_relink_iff acyclic links).mpr fun target linked => ?_) nofun
    subst linked
    exact parents.not_reaches_nextId (named target (List.mem_singleton_self target))
  | inherit id source =>
    by_cases admitted : (inherit id source).Admitted arena
    · have written : (inherit id source).link arena = some (id, arena.parent? source) :=
        if_pos admitted
      rw [written] at links
      rw [Arena.acyclic_relink_iff acyclic links]
      simp only [admitted, true_imp_iff, Overtakes, Relation.TransGen.head'_iff, Arena.HasParent]
      simp
    · exact iff_of_true (untouched (if_neg admitted)) fun carriedOut => absurd carriedOut admitted
  | addLeaf id kind token =>
    refine iff_of_true ((Arena.acyclic_relink_iff acyclic links).mpr fun target linked => ?_) nofun
    cases linked
    exact parents.not_reaches_nextId (named id (List.mem_singleton_self id))
  | addChild id child =>
    refine iff_of_true ?_ nofun
    by_cases passed : arena.isAtOrAbove? child id = some false ∧ child.index < arena.size
    · have written : (addChild id child).link arena = some (child, some id) := if_pos passed
      rw [written] at links
      refine (Arena.acyclic_relink_iff acyclic links).mpr fun target linked => ?_
      cases linked
      intro path
      have met := (Arena.meets_eq_true_iff passed.1).mpr path
      cases met
    · exact untouched (if_neg passed)
  | removeLastChild id | setStart id token | setStop id token | setAlt id token =>
    exact iff_of_true (untouched rfl) nofun

/-- The parent that an edit links to exists if the nodes that it names do. -/
theorem Mutation.lt_size_of_link (parents : arena.ParentsExist)
    (named : ∀ id ∈ mutation.named, id.index < arena.size) {node target : NodeId}
    (written : mutation.link arena = some (node, some target)) : target.index < arena.size := by
  cases mutation with
  | create parent invokingState rule =>
    cases written
    exact named target (List.mem_singleton_self target)
  | inherit id source =>
    simp only [Mutation.link, Option.ite_none_right_eq_some] at written
    have linked : arena.parent? source = some target :=
      congrArg Prod.snd (Option.some.inj written.2)
    exact parents source target linked
  | addLeaf id kind token =>
    cases written
    exact named target (List.mem_singleton_self target)
  | addChild id child =>
    simp only [Mutation.link, Option.ite_none_right_eq_some] at written
    cases written.2
    exact named target List.mem_cons_self
  | removeLastChild id | setStart id token | setStop id token | setAlt id token => cases written

theorem Mutation.parentsExist_leave (parents : arena.ParentsExist)
    (named : ∀ id ∈ mutation.named, id.index < arena.size) :
    (mutation.leave arena).ParentsExist := by
  intro id above link
  have inside : above.index < arena.size := by
    unfold Arena.HasParent at link
    rw [parent?_leave] at link
    rcases written : mutation.link arena with - | ⟨node, parent⟩
    · rw [written] at link
      exact parents id above link
    · rw [written] at link
      by_cases here : id = node
      · have linked : parent = some above := (if_pos here).symm.trans link
        rw [linked] at written
        exact lt_size_of_link parents named written
      · exact parents id above ((if_neg here).symm.trans link)
  exact Nat.lt_of_lt_of_le inside size_le_leave

/-- Taking over the parent of a node from below leads back to where it came from. -/
theorem Mutation.circle_of_overtakes {id source : NodeId}
    (admitted : (inherit id source).Admitted arena)
    (overtakes : (inherit id source).Overtakes arena) :
    TransGen ((inherit id source).leave arena).HasParent id id := by
  obtain ⟨target, linked, path⟩ := Relation.TransGen.head'_iff.mp overtakes
  have written : (inherit id source).link arena = some (id, some target) := by
    rw [← (show arena.parent? source = some target from linked)]
    exact if_pos admitted
  have parent (x : NodeId) : ((inherit id source).leave arena).parent? x =
      if x = id then some target else arena.parent? x := by
    rw [parent?_leave, written]
    rfl
  have first : ((inherit id source).leave arena).HasParent id target :=
    (parent id).trans (if_pos rfl)
  refine .head' first (ReflTransGen.mono (fun x y kept => ?_) _ _ (reflTransGen_avoiding path))
  obtain ⟨other, old⟩ := kept
  exact (parent x).trans ((if_neg other).trans old)

/-! ## Runs -/

/-- The edits that have led from the empty arena to this one, carried out or refused, each with the
arena that it was made in. An edit names nodes only that exist when it is made. -/
inductive Tried : List (Arena × Mutation) → Arena → Prop
  | start : Tried [] .empty
  | step {past : List (Arena × Mutation)} {arena : Arena} (run : Tried past arena)
      (mutation : Mutation) (named : ∀ id ∈ mutation.named, id.index < arena.size) :
      Tried ((arena, mutation) :: past) (mutation.leave arena)

namespace Tried

theorem parentsExist (run : Tried past arena) : arena.ParentsExist := by
  induction run with
  | start => exact fun id above link => by cases link
  | step run mutation named ih => exact mutation.parentsExist_leave ih named

/-- A run meets arenas without circles of parents only, and leads to one, exactly if no edit that
was carried out overtakes. -/
theorem acyclic_iff (run : Tried past arena) :
    (∀ moment ∈ past, Acyclic moment.1.HasParent) ∧ Acyclic arena.HasParent ↔
      ∀ moment ∈ past, moment.2.Admitted moment.1 → ¬ moment.2.Overtakes moment.1 := by
  induction run with
  | start =>
    refine iff_of_true ⟨by simp, ?_⟩ (by simp)
    exact acyclic_iff_cycleFree.mpr Arena.Forest.empty.endsAbove
  | @step past arena run mutation named ih =>
    have last (acyclic : Acyclic arena.HasParent) :=
      mutation.acyclic_leave_iff acyclic run.parentsExist named
    simp only [List.forall_mem_cons]
    constructor
    · intro acyclicAll
      obtain ⟨⟨acyclic, before⟩, acyclicAfter⟩ := acyclicAll
      exact ⟨(last acyclic).mp acyclicAfter, ih.mp ⟨before, acyclic⟩⟩
    · intro noneOvertakes
      obtain ⟨notLast, notBefore⟩ := noneOvertakes
      obtain ⟨before, acyclic⟩ := ih.mpr notBefore
      exact ⟨⟨acyclic, before⟩, (last acyclic).mpr notLast⟩

/-- Parent links run in no circle, at every moment of a run that goes on after refusals, if and only
if no edit that was carried out gave a context the parent of a node below it.  Such an edit closes a
circle through that context.  Without circles the ways upwards end, a node has fewer ancestors than
there are nodes, and a child is refused for a cycle exactly if its new parent link would close a
circle. -/
theorem parent_cycle_iff (run : Tried past arena) :
    ((∀ moment ∈ past, Acyclic moment.1.HasParent) ∧ Acyclic arena.HasParent ↔
      ∀ moment ∈ past, moment.2.Admitted moment.1 → ¬ moment.2.Overtakes moment.1) ∧
    (Acyclic arena.HasParent → ∀ names id child,
      (arena.depth? id).isSome ∧ (arena.invocationStack? names id).isSome ∧
        (arena.isAtOrAbove? child id).isSome ∧
        (id.index < arena.size → ∃ depth, arena.depth? id = some depth ∧ depth < arena.size)) ∧
    (∀ id source answer after, TransGen arena.HasParent source id →
      (Mutation.inherit id source).run arena = .ok answer after → TransGen after.HasParent id id) ∧
    (Acyclic arena.HasParent → ∀ id child, child.index < arena.size →
      ((∃ after, (Mutation.addChild id child).run arena = .error (.cycle id child) after) ↔
        ¬ Acyclic (arena.modify child (.withParent id)).HasParent)) := by
  refine ⟨run.acyclic_iff, fun acyclic names id child => ?_, ?_, ?_⟩
  · have ends : arena.EndsAbove id := acyclic_iff_cycleFree.mp acyclic id
    obtain ⟨met, answer, -⟩ := Arena.exists_isAtOrAbove?_eq child ends
    exact ⟨Arena.isSome_depth?.mpr ends, Arena.isSome_invocationStack? ends,
      Option.isSome_iff_exists.mpr ⟨met, answer⟩,
      Arena.exists_depth?_lt acyclic run.parentsExist⟩
  · intro id source answer after below done
    obtain ⟨admitted, -, rfl⟩ := Mutation.run_eq_ok_iff.mp done
    rw [← Mutation.leave_of_admitted admitted]
    exact Mutation.circle_of_overtakes admitted below
  · intro acyclic id child inside
    have ends : arena.EndsAbove id := acyclic_iff_cycleFree.mp acyclic id
    obtain ⟨met, answer, reaches⟩ := Arena.exists_isAtOrAbove?_eq child ends
    have relinked : Acyclic (arena.modify child (.withParent id)).HasParent ↔
        ∀ target, some id = some target → ¬ ReflTransGen arena.HasParent target child :=
      Arena.acyclic_relink_iff acyclic (Arena.parent?_modify_withParent inside)
    rw [Mutation.addChild_cycle_iff, relinked, answer, Option.some.injEq, reaches]
    simp

/-- A leaf that is refused by another leaf stays below it and ends no way upwards.  A context that
is given the parent of its own child then closes a circle. -/
theorem acyclic_of_refused_leaf :
    ∃ past arena, Tried past arena ∧
      past.map Prod.snd =
        [.create (some ⟨0⟩) none none, .addLeaf ⟨1⟩ .error (.ofType 5 1),
          .addLeaf ⟨0⟩ .terminal (.ofType 4 0), .create none none none] ∧
      Acyclic arena.HasParent ∧ arena.depth? ⟨2⟩ = some 2 ∧
      ∃ answer after, (Mutation.inherit ⟨0⟩ ⟨3⟩).run arena = .ok answer after ∧
        TransGen after.HasParent ⟨0⟩ ⟨0⟩ := by
  have listed := (start.step (.create none none none) (by decide)).step
    (.addLeaf ⟨0⟩ .terminal (.ofType 4 0)) (by decide)
  have run := (listed.step (.addLeaf ⟨1⟩ .error (.ofType 5 1)) (by decide)).step
    (.create (some ⟨0⟩) none none) (by decide)
  obtain ⟨acyclicIff, -, closes, -⟩ := run.parent_cycle_iff
  have acyclic := (acyclicIff.mpr (by simp [Mutation.Overtakes])).2
  refine ⟨_, _, run, rfl, acyclic, by decide, none, _, rfl, closes ⟨0⟩ ⟨3⟩ none _ ?_ rfl⟩
  exact .single rfl

end Tried

end Recognizer.Tree
