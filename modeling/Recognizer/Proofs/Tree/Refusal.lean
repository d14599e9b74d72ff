import Recognizer.Proofs.Tree.Outcome

/-!
# Refused edits

A refused edit keeps what it has done up to then.  `Mutation.residue` is the arena that it leaves:
the old one, but for a leaf that could not be listed and for a child that was linked to its new
parent before it could not be listed there.  `Mutation.refusal` is its fault.

`Mutation.leave` is the arena after an edit in either case, as a run meets it that goes on after
refusals.
-/

namespace Recognizer.Tree

namespace Arena

variable {arena : Arena} {id : NodeId}

theorem contextFault_modify_withParent (target parent : NodeId) :
    (arena.modify target (.withParent parent)).contextFault id = arena.contextFault id := by
  unfold contextFault
  rw [node?_modify]
  by_cases here : id = target
  · rw [if_pos here]
    rcases arena.node? id with - | ⟨l⟩ | ⟨c⟩ <;> rfl
  · rw [if_neg here]

theorem contextFault_ne_endless (other : NodeId) : arena.contextFault id ≠ .endless other := by
  unfold contextFault
  split <;> simp

end Arena

namespace Mutation

/-- The arena that a refused edit leaves. -/
def residue (arena : Arena) : Mutation → Arena
  | addLeaf id kind token => arena.push (.leaf ⟨kind, token, id⟩)
  | addChild id child =>
    if arena.isAtOrAbove? child id = some false ∧ child.index < arena.size then
      arena.modify child (.withParent id)
    else arena
  | create _ _ _ | inherit _ _ | removeLastChild _ | setStart _ _ | setStop _ _ | setAlt _ _ =>
    arena

/-- The fault of a refused edit. Activations are never refused. -/
def refusal (arena : Arena) : Mutation → Fault
  | inherit id source =>
    arena.contextFault (if arena.IsContext source then id else source)
  | addLeaf id kind token => (arena.push (.leaf ⟨kind, token, id⟩)).contextFault id
  | addChild id child =>
    match arena.isAtOrAbove? child id with
    | some true => .cycle id child
    | none => .endless id
    | some false =>
      if child.index < arena.size then arena.contextFault id else .noSuchChild child arena.size
  | create _ _ _ => .noSuchContext arena.nextId
  | removeLastChild id | setStart id _ | setStop id _ | setAlt id _ => arena.contextFault id

/-- The arena after an edit, whether it was carried out or refused. -/
def leave (arena : Arena) (mutation : Mutation) : Arena :=
  match mutation.run arena with
  | .ok _ after => after
  | .error _ after => after

variable {arena after : Arena} {mutation : Mutation}

theorem run_of_refused (refused : ¬ mutation.Admitted arena) :
    mutation.run arena = .error (mutation.refusal arena) (mutation.residue arena) := by
  cases mutation with
  | create parent invokingState rule => exact absurd trivial refused
  | inherit id source =>
    simp only [run, residue, refusal, Functor.map, EStateM.map, Edit.inherit_eq]
    rcases found : arena.context? source with - | giver
    · have noSource : ¬ arena.IsContext source := by simp [Arena.IsContext, found]
      rw [if_neg noSource]
    · have isSource : arena.IsContext source := Option.isSome_iff_exists.mpr ⟨giver, found⟩
      have noContext : ¬ arena.IsContext id := fun isContext => refused ⟨isSource, isContext⟩
      simp only [if_neg noContext, if_pos isSource]
  | addLeaf id kind token =>
    have noContext : ¬ arena.IsContext id := refused
    simp only [run, residue, refusal, Functor.map, EStateM.map, Edit.addLeaf_eq, if_neg noContext]
  | addChild id child =>
    simp only [run, residue, refusal, Functor.map, EStateM.map, Edit.addChild_eq]
    rcases guard : arena.isAtOrAbove? child id with - | _ | _
    · rfl
    · by_cases inside : child.index < arena.size
      · have noContext : ¬ arena.IsContext id := fun isContext => refused ⟨guard, inside, isContext⟩
        simp only [if_pos inside, if_neg noContext, true_and,
          Arena.contextFault_modify_withParent]
      · simp only [if_neg inside, true_and]
    · rfl
  | removeLastChild id =>
    have noContext : ¬ arena.IsContext id := refused
    simp only [run, residue, refusal, Edit.removeLastChild_eq, if_neg noContext]
  | setStart id token | setStop id token | setAlt id token =>
    have noContext : ¬ arena.IsContext id := refused
    simp only [run, residue, refusal, Functor.map, EStateM.map, Edit.setStart, Edit.setStop,
      Edit.setAlt, Edit.modifyContext_eq, if_neg noContext]

/-- An edit that fails was not admitted. -/
theorem of_run_error {fault : Fault} (refused : mutation.run arena = .error fault after) :
    ¬ mutation.Admitted arena ∧ fault = mutation.refusal arena ∧
      after = mutation.residue arena := by
  have notAdmitted : ¬ mutation.Admitted arena := by
    intro admitted
    rw [run_of_admitted admitted] at refused
    cases refused
  rw [run_of_refused notAdmitted] at refused
  cases refused
  exact ⟨notAdmitted, rfl, rfl⟩

theorem leave_of_admitted (admitted : mutation.Admitted arena) :
    mutation.leave arena = mutation.apply arena := by
  unfold leave
  rw [run_of_admitted admitted]

theorem leave_of_refused (refused : ¬ mutation.Admitted arena) :
    mutation.leave arena = mutation.residue arena := by
  unfold leave
  rw [run_of_refused refused]

/-- Nodes are only ever added. -/
theorem size_le_leave : arena.size ≤ (mutation.leave arena).size := by
  by_cases admitted : mutation.Admitted arena
  · rw [leave_of_admitted admitted]
    cases mutation with
    | inherit id source =>
      rcases found : arena.context? source with - | giver
      · simp [apply, found]
      · simp [apply, found, Arena.size_modify]
    | _ => simp [apply, Arena.append, Arena.dropLast, Arena.size_push, Arena.size_modify]
  · rw [leave_of_refused admitted]
    cases mutation with
    | addChild id child =>
      simp only [residue]
      split
      · exact Nat.le_of_eq (Arena.size_modify _ _ _).symm
      · exact Nat.le_refl _
    | _ => simp [residue, Arena.size_push]

/-- A child is refused as an ancestor of its new context exactly if the search upwards meets it. -/
theorem addChild_cycle_iff {id child : NodeId} :
    (∃ after, (addChild id child).run arena = .error (.cycle id child) after) ↔
      arena.isAtOrAbove? child id = some true := by
  have otherFault (arena : Arena) : arena.contextFault id ≠ .cycle id child := by
    unfold Arena.contextFault
    split <;> simp
  simp only [run, Functor.map, EStateM.map, Edit.addChild_eq]
  rcases arena.isAtOrAbove? child id with - | _ | _
  · simp
  · by_cases inside : child.index < arena.size
    · by_cases isContext : arena.IsContext id
      · simp [inside, isContext]
      · simp [inside, isContext, otherFault]
    · simp [inside]
  · simp

end Mutation

end Recognizer.Tree
