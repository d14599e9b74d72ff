import Mathlib.Data.List.Nodup
import Mathlib.Logic.Relation
import Recognizer.Tree.Node

/-!
# Paths that end

Parent links and child lists are both followed by a function `next` from a node to the nodes after
it, and both traversals carry a budget.  `EndsWithin next budget id` says that a budget is enough:
every path from `id` comes to its end before it has gone on more than `budget` times.

`endsWithin_iff_cycleFree` says when the number of nodes is a sufficient budget: exactly if no node
that a path from `id` can reach leads back to itself.  A path that is longer would have passed some
node twice.

A relation is `Acyclic` if no node at all leads back to itself.  `Acyclic.insert_iff` says when one
more step keeps it so, and `Acyclic.redirect_iff` when a step that takes the place of all others
from its node does.
-/

namespace Recognizer.Tree

open Relation (ReflTransGen TransGen)

/-- `next` gives the nodes after `x`, and `y` is one of them. -/
def Leads (next : NodeId → Option (List NodeId)) (x y : NodeId) : Prop :=
  ∃ ys, next x = some ys ∧ y ∈ ys

/-- Every path from a node goes on at most `budget` times. -/
def EndsWithin (next : NodeId → Option (List NodeId)) : Nat → NodeId → Prop
  | 0, id => next id = none
  | budget + 1, id => ∀ ys, next id = some ys → ∀ y ∈ ys, EndsWithin next budget y

/-- No node that can be reached from `id` can be reached from itself again. -/
def CycleFree (step : NodeId → NodeId → Prop) (id : NodeId) : Prop :=
  ∀ x, ReflTransGen step id x → ¬ TransGen step x x

variable {step : NodeId → NodeId → Prop} {next : NodeId → Option (List NodeId)}
  {budget size : Nat} {id x y : NodeId}

theorem CycleFree.of_step (free : CycleFree step x) (edge : step x y) : CycleFree step y :=
  fun z reached => free z (.head edge reached)

theorem CycleFree.mono {fewer : NodeId → NodeId → Prop} (free : CycleFree step id)
    (sub : ∀ x y, fewer x y → step x y) : CycleFree fewer id :=
  fun x reached round =>
    free x (ReflTransGen.mono sub id x reached) (TransGen.mono sub x x round)

theorem length_le_of_nodup_of_lt {ids : List NodeId} (distinct : ids.Nodup)
    (inside : ∀ id ∈ ids, id.index < size) : ids.length ≤ size := by
  have injective : Function.Injective NodeId.index := fun a b same => by
    cases a
    cases same
    rfl
  have indices : (ids.map NodeId.index).Nodup := distinct.map injective
  have within : ids.map NodeId.index ⊆ List.range size := by
    intro index listed
    obtain ⟨id, member, rfl⟩ := List.mem_map.mp listed
    exact List.mem_range.mpr (inside id member)
  have bound := indices.length_le_of_subset within
  rwa [List.length_map, List.length_range] at bound

/-- The pigeonhole argument, along one path: the nodes in `passed` lead to `id` and differ from it
and from each other, so that together with the budget they account for all nodes there are. -/
theorem CycleFree.endsWithin_of_passed (bounded : ∀ x, (next x).isSome → x.index < size)
    {passed : List NodeId} (free : CycleFree (Leads next) id) (distinct : (id :: passed).Nodup)
    (inside : ∀ x ∈ passed, x.index < size)
    (leading : ∀ x ∈ passed, TransGen (Leads next) x id) (enough : size ≤ budget + passed.length) :
    EndsWithin next budget id := by
  induction budget generalizing id passed with
  | zero =>
    rcases goesOn : next id with - | ys
    · exact goesOn
    · have here : id.index < size := bounded id (by rw [goesOn]; rfl)
      have bound := length_le_of_nodup_of_lt distinct (List.forall_mem_cons.mpr ⟨here, inside⟩)
      rw [List.length_cons] at bound
      omega
  | succ budget ih =>
    intro ys goesOn y member
    have edge : Leads next id y := ⟨ys, goesOn, member⟩
    have here : id.index < size := bounded id (by rw [goesOn]; rfl)
    have leadingAfter : ∀ x ∈ id :: passed, TransGen (Leads next) x y := by
      intro x listed
      rcases List.mem_cons.mp listed with rfl | before
      · exact .single edge
      · exact (leading x before).tail edge
    have notAgain : y ∉ id :: passed := fun again => free y (.single edge) (leadingAfter y again)
    refine ih (free.of_step edge) (List.nodup_cons.mpr ⟨notAgain, distinct⟩)
      (List.forall_mem_cons.mpr ⟨here, inside⟩) leadingAfter ?_
    rw [List.length_cons]
    omega

theorem EndsWithin.of_trans (ends : EndsWithin next budget x) (path : TransGen (Leads next) x y) :
    ∃ rest < budget, EndsWithin next rest y := by
  have first : ∀ {budget x y}, EndsWithin next budget x → Leads next x y →
      ∃ rest < budget, EndsWithin next rest y := by
    rintro (- | budget) x y ends ⟨ys, goesOn, member⟩
    · cases goesOn.symm.trans ends
    · exact ⟨budget, Nat.lt_succ_self _, ends ys goesOn y member⟩
  induction path with
  | single edge => exact first ends edge
  | tail _ edge ih =>
    obtain ⟨between, less, endsBetween⟩ := ih
    obtain ⟨rest, lessAgain, endsRest⟩ := first endsBetween edge
    exact ⟨rest, Nat.lt_trans lessAgain less, endsRest⟩

/-- A node from which all paths end does not lead back to itself: each round would cost budget. -/
theorem EndsWithin.irrefl (ends : EndsWithin next budget x) : ¬ TransGen (Leads next) x x := by
  intro round
  induction budget using Nat.strongRecOn with
  | ind budget ih =>
    obtain ⟨rest, less, endsRest⟩ := ends.of_trans round
    exact ih rest less endsRest

theorem EndsWithin.cycleFree (ends : EndsWithin next budget id) : CycleFree (Leads next) id := by
  intro x reached
  rcases Relation.reflTransGen_iff_eq_or_transGen.mp reached with rfl | path
  · exact ends.irrefl
  · obtain ⟨rest, -, endsThere⟩ := ends.of_trans path
    exact endsThere.irrefl

/-- If only the first `size` nodes lead on, a budget of `size` is enough exactly where no cycle can
be reached. -/
theorem endsWithin_iff_cycleFree (bounded : ∀ x, (next x).isSome → x.index < size) :
    EndsWithin next size id ↔ CycleFree (Leads next) id :=
  ⟨EndsWithin.cycleFree, fun free =>
    free.endsWithin_of_passed bounded (List.nodup_singleton id) (by simp) (by simp) (by simp)⟩

/-- A relation along which a number grows runs in no circle. -/
theorem cycleFree_of_lt (rank : NodeId → Nat) (grows : ∀ x y, step x y → rank x < rank y) :
    CycleFree step id := by
  intro x _ round
  have climbs : ∀ y, TransGen step x y → rank x < rank y := by
    intro y path
    induction path with
    | single edge => exact grows _ _ edge
    | tail _ edge ih => exact Nat.lt_trans ih (grows _ _ edge)
  exact Nat.lt_irrefl _ (climbs x round)

/-- No node leads back to itself. -/
def Acyclic (step : NodeId → NodeId → Prop) : Prop :=
  ∀ x, ¬ TransGen step x x

theorem acyclic_iff_cycleFree : Acyclic step ↔ ∀ id, CycleFree step id :=
  ⟨fun acyclic _ x _ => acyclic x, fun free x => free x x .refl⟩

theorem Acyclic.mono {after : NodeId → NodeId → Prop} (acyclic : Acyclic step)
    (fewer : ∀ x y, after x y → step x y) : Acyclic after :=
  fun x round => acyclic x (TransGen.mono fewer x x round)

section Insertion

variable {after : NodeId → NodeId → Prop} {source target : NodeId}

/-- A path that may take the new step takes it never, or it leads to its source and goes on from its
target. -/
theorem transGen_of_insert (insert : ∀ x y, after x y ↔ step x y ∨ x = source ∧ y = target)
    (path : TransGen after x y) :
    TransGen step x y ∨ ReflTransGen step x source ∧ ReflTransGen step target y := by
  induction path with
  | single edge =>
    rcases (insert _ _).mp edge with old | ⟨rfl, rfl⟩
    · exact .inl (.single old)
    · exact .inr ⟨.refl, .refl⟩
  | tail _ edge ih =>
    rcases (insert _ _).mp edge with old | ⟨rfl, rfl⟩
    · rcases ih with without | ⟨before, behind⟩
      · exact .inl (without.tail old)
      · exact .inr ⟨before, behind.tail old⟩
    · rcases ih with without | ⟨before, -⟩
      · exact .inr ⟨without.to_reflTransGen, .refl⟩
      · exact .inr ⟨before, .refl⟩

/-- A new step makes a cycle exactly if its target led to its source before. -/
theorem Acyclic.insert_iff (acyclic : Acyclic step)
    (insert : ∀ x y, after x y ↔ step x y ∨ x = source ∧ y = target) :
    Acyclic after ↔ ¬ ReflTransGen step target source := by
  constructor
  · intro acyclicAfter back
    have edge : after source target := (insert _ _).mpr (.inr ⟨rfl, rfl⟩)
    have backAfter : ReflTransGen after target source :=
      ReflTransGen.mono (fun x y old => (insert x y).mpr (.inl old)) target source back
    exact acyclicAfter source (.head' edge backAfter)
  · intro noWayBack x round
    rcases transGen_of_insert insert round with without | ⟨before, behind⟩
    · exact acyclic x without
    · exact noWayBack (behind.trans before)

end Insertion

section Redirection

variable {after : NodeId → NodeId → Prop} {source target : NodeId}

/-- A path to a node can be cut short where it first meets that node. -/
theorem reflTransGen_avoiding (path : ReflTransGen step x source) :
    ReflTransGen (fun a b => a ≠ source ∧ step a b) x source := by
  induction path using ReflTransGen.head_induction_on with
  | refl => exact .refl
  | @head a b edge _ ih =>
    by_cases here : a = source
    · subst here
      exact .refl
    · exact .head ⟨here, edge⟩ ih

/-- Replacing all steps from a node by a single one makes a cycle exactly if the target of that step
led to the node before. -/
theorem Acyclic.redirect_iff (acyclic : Acyclic step)
    (redirect : ∀ x y, after x y ↔ (x ≠ source ∧ step x y) ∨ x = source ∧ y = target) :
    Acyclic after ↔ ¬ ReflTransGen step target source := by
  have remaining : Acyclic fun a b => a ≠ source ∧ step a b :=
    acyclic.mono fun _ _ kept => kept.2
  rw [remaining.insert_iff redirect]
  refine not_congr ⟨fun path => ?_, reflTransGen_avoiding⟩
  exact ReflTransGen.mono (fun _ _ kept => kept.2) _ _ path

end Redirection

end Recognizer.Tree
