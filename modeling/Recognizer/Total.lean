/-!
# Totals

The sum of a list of natural numbers, by recursion on the list. It counts the members of symbol sets
and bounds the work of tree traversals.
-/

namespace Recognizer

/-- The sum of a list of natural numbers. -/
def total : List Nat → Nat
  | [] => 0
  | n :: rest => n + total rest

theorem total_nil : total [] = 0 := rfl

theorem total_cons (n : Nat) (rest : List Nat) : total (n :: rest) = n + total rest := rfl

theorem total_append (xs ys : List Nat) : total (xs ++ ys) = total xs + total ys := by
  induction xs with
  | nil => simp [total]
  | cons x xs ih => simp [total, ih, Nat.add_assoc]

end Recognizer
