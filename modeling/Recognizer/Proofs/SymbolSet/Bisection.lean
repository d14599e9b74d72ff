import Recognizer.SymbolSet.Bisection

/-!
# What bisection finds

A position that bisection answers holds the target. If the array is ordered with respect to the
target, bisection also finds it whenever it is there, although not necessarily its first occurrence.
-/

namespace Recognizer

/-- No element that is before the target stands behind one that is not, and no element that is after
it stands in front of one that is not. -/
def Ordered {α : Type} (side : α → Ordering) (xs : Array α) : Prop :=
  ∀ i j (inside : j < xs.size) (less : i < j),
    (side xs[j] = .lt → side xs[i] = .lt) ∧ (side xs[i] = .gt → side xs[j] = .gt)

variable {α : Type} {side : α → Ordering} {xs : Array α} {lo hi found : Nat} {fits : hi ≤ xs.size}

theorem mem_of_bisect (answer : bisect side xs lo hi fits = some found) :
    ∃ x ∈ xs, side x = .eq := by
  fun_induction bisect side xs lo hi fits with
  | case1 lo hi fits remaining inside here => exact ⟨_, Array.getElem_mem inside, here⟩
  | case2 lo hi fits remaining inside here ih => exact ih answer
  | case3 lo hi fits remaining inside here ih => exact ih answer
  | case4 lo hi fits remaining => cases answer

/-- The target is never in the half that is given up. -/
theorem isSome_bisect_of_mem (ordered : Ordered side xs) {position : Nat}
    (inside : position < xs.size) (target : side xs[position] = .eq) (notBefore : lo ≤ position)
    (notAfter : position < hi) : (bisect side xs lo hi fits).isSome := by
  fun_induction bisect side xs lo hi fits with
  | case1 lo hi fits remaining middle here => rfl
  | case2 lo hi fits remaining middle here ih =>
    refine ih (Nat.lt_of_not_le fun behind => ?_) notAfter
    rcases Nat.lt_or_eq_of_le behind with less | same
    · have before := (ordered _ _ middle less).1 here
      rw [target] at before
      cases before
    · subst same
      rw [target] at here
      cases here
  | case3 lo hi fits remaining middle here ih =>
    refine ih notBefore (Nat.lt_of_not_le fun behind => ?_)
    rcases Nat.lt_or_eq_of_le behind with less | same
    · have after := (ordered _ _ inside less).2 here
      rw [target] at after
      cases after
    · subst same
      rw [target] at here
      cases here
  | case4 lo hi fits empty => omega

theorem isSome_bisect_iff (ordered : Ordered side xs) :
    (bisect side xs 0 xs.size (Nat.le_refl _)).isSome ↔ ∃ x ∈ xs, side x = .eq := by
  constructor
  · intro answered
    obtain ⟨found, answer⟩ := Option.isSome_iff_exists.mp answered
    exact mem_of_bisect answer
  · intro present
    obtain ⟨x, member, target⟩ := present
    obtain ⟨position, inside, rfl⟩ := Array.mem_iff_getElem.mp member
    exact isSome_bisect_of_mem ordered inside target (Nat.zero_le _) inside

end Recognizer
