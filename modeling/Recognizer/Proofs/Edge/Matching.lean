import Recognizer.Edge.Matching
import Recognizer.Proofs.SymbolSet.Recipe

/-!
# Edges and their labels

An edge decides by comparisons and a search whether it accepts a symbol, without making a set.  Here
this is compared with the sets of symbols that belong to it: its label, or what the label or the
empty set leaves out of the vocabulary.  They agree for all symbols and bounds, in the wrong order
too, if the sets on edges are made with the operations of symbol sets.
-/

namespace Recognizer

variable {x least greatest : Symbol} {move : Move}

theorem Interval.contains_iff {iv : Interval} : iv.contains x = true ↔ iv.lo ≤ x ∧ x ≤ iv.hi :=
  decide_eq_true_iff

namespace SymbolSet

theorem contains_ofRange (lo hi : Symbol) :
    (ofRange lo hi).contains x = Interval.contains ⟨lo, hi⟩ x := by
  have canonical : (ofRange lo hi).Canonical := canonical_empty.addRange lo hi
  rw [Bool.eq_iff_iff, contains_iff canonical, Interval.contains_iff]
  exact (mem_addRange canonical_empty).trans (or_iff_right notMem_empty)

theorem contains_singleton (label : Symbol) : (singleton label).contains x = (x == label) := by
  have canonical : (singleton label).Canonical := canonical_empty.add label
  rw [Bool.eq_iff_iff, contains_iff canonical, beq_iff_eq]
  exact (mem_add canonical_empty).trans (or_iff_right notMem_empty)

theorem contains_complement {set : SymbolSet} (canonical : set.Canonical) :
    (set.complement least greatest).contains x =
      (Interval.contains ⟨least, greatest⟩ x && !set.contains x) := by
  have complements : (set.complement least greatest).Canonical := .complement set least greatest
  rw [Bool.eq_iff_iff, contains_iff complements, mem_complement canonical, Bool.and_eq_true,
    Interval.contains_iff, Bool.not_eq_true', ← Bool.not_eq_true, contains_iff canonical]

theorem contains_empty : empty.contains x = false := by
  rw [← Bool.not_eq_true, contains_iff canonical_empty]
  exact notMem_empty

end SymbolSet

namespace Move

/-- The sets of the move are made with the operations of symbol sets. -/
def Built (move : Move) : Prop :=
  ∀ set, move = .set set ∨ move = .notSet set → ∃ recipe : SymbolSet.Recipe, recipe.build = set

/-- A symbol, a range or a set as a label is what the move accepts. -/
theorem accepts_of_plain (plain : move.kind ∈ [.atom, .range, .set]) :
    ∃ label, move.label? = some label ∧ move.accepts x least greatest = label.contains x := by
  cases move with
  | atom label => exact ⟨_, rfl, (SymbolSet.contains_singleton label).symm⟩
  | range lo hi => exact ⟨_, rfl, (SymbolSet.contains_ofRange lo hi).symm⟩
  | set label => exact ⟨label, rfl, rfl⟩
  | epsilon _ | call _ _ _ | predicate _ | action _ _ _ => simp [kind] at plain
  | notSet _ | wildcard | precedence _ => simp [kind] at plain

/-- A negated set accepts what it leaves out of the vocabulary. -/
theorem accepts_of_notSet (built : move.Built) (negated : move.kind = .notSet) :
    ∃ label, move.label? = some label ∧
      move.accepts x least greatest =
        (Move.set (label.complement least greatest)).accepts x least greatest := by
  cases move with
  | notSet excluded =>
    obtain ⟨recipe, rfl⟩ := built excluded (.inr rfl)
    exact ⟨_, rfl, (SymbolSet.contains_complement recipe.canonical_build).symm⟩
  | epsilon _ | call _ _ _ | predicate _ | action _ _ _ => cases negated
  | atom _ | range _ _ | set _ | wildcard | precedence _ => cases negated

/-- A wildcard accepts what the empty set leaves out of the vocabulary. -/
theorem accepts_of_wildcard (any : move.kind = .wildcard) :
    move.accepts x least greatest =
      (Move.set (SymbolSet.empty.complement least greatest)).accepts x least greatest := by
  cases move with
  | wildcard =>
    refine Eq.trans ?_ (SymbolSet.contains_complement SymbolSet.canonical_empty).symm
    rw [SymbolSet.contains_empty, Bool.not_false, Bool.and_true]
    rfl
  | epsilon _ | call _ _ _ | predicate _ | action _ _ _ => cases any
  | atom _ | range _ _ | set _ | notSet _ | precedence _ => cases any

/-- The other moves have no label and accept nothing. -/
theorem accepts_of_unlabelled
    (other : move.kind ∉ [.atom, .range, .set, .notSet, .wildcard]) :
    move.label? = none ∧ move.accepts x least greatest = false := by
  cases move with
  | epsilon _ | call _ _ _ | predicate _ | action _ _ _ | precedence _ => exact ⟨rfl, rfl⟩
  | atom _ | range _ _ | set _ | notSet _ | wildcard => simp [kind] at other

/-- What is crossed without looking at the input is none of the moves that accept symbols. -/
theorem kind_of_isEpsilon (crossed : move.isEpsilon = true) :
    move.kind ∉ [.atom, .range, .set, .notSet, .wildcard] := by
  cases move with
  | epsilon _ | call _ _ _ | predicate _ | action _ _ _ => simp [kind]
  | atom _ | range _ _ | set _ | notSet _ | wildcard | precedence _ => cases crossed

end Move

namespace Edge

/-- The sets of the edge are made with the operations of symbol sets. -/
def Built (edge : Edge) : Prop :=
  edge.move.Built

/-- Which symbols an edge accepts is told by its label. An edge with a symbol, a range or a set
accepts the members of its label; one with a negated set accepts what an edge with the complement of
its label does, and a wildcard what an edge with the complement of the empty set does, each within
the vocabulary. All other edges have no label and accept nothing, and so do those that are crossed
without looking at the input. -/
theorem accepts_by_label (edge : Edge) (built : edge.Built) (x least greatest : Symbol)
    (target : StateId) :
    (edge.kind ∈ [.atom, .range, .set] → ∃ label, edge.label? = some label ∧
      edge.accepts x least greatest = label.contains x) ∧
    (edge.kind = .notSet → ∃ label, edge.label? = some label ∧
      edge.accepts x least greatest =
        (Edge.mk target (.set (label.complement least greatest))).accepts x least greatest) ∧
    (edge.kind = .wildcard → edge.accepts x least greatest =
      (Edge.mk target (.set (SymbolSet.empty.complement least greatest))).accepts
        x least greatest) ∧
    (edge.kind ∉ [.atom, .range, .set, .notSet, .wildcard] →
      edge.label? = none ∧ edge.accepts x least greatest = false) ∧
    (edge.isEpsilon = true → edge.accepts x least greatest = false) := by
  refine ⟨Move.accepts_of_plain, Move.accepts_of_notSet built, Move.accepts_of_wildcard,
    Move.accepts_of_unlabelled, fun crossed => ?_⟩
  exact (Move.accepts_of_unlabelled (Move.kind_of_isEpsilon crossed)).2

/-- An edge that excludes a range and a symbol, and the end of the input as a symbol of the
vocabulary. -/
theorem accepts_of_notSet_endOfInput :
    let edge : Edge := ⟨4, .notSet ((SymbolSet.ofRange 3 7).add 9)⟩
    edge.Built ∧ edge.kind = .notSet ∧
      edge.accepts endOfInput endOfInput 10 = true ∧
      (Edge.mk 4 (.set (((SymbolSet.ofRange 3 7).add 9).complement endOfInput 10))).accepts
        endOfInput endOfInput 10 = true := by
  intro edge
  have built : edge.Built := by
    rintro set (isSet | isNotSet)
    · cases isSet
    · cases isNotSet
      exact ⟨.add (.ofRange 3 7) 9, rfl⟩
  have accepted : edge.accepts endOfInput endOfInput 10 = true := by decide +kernel
  obtain ⟨-, negated, -⟩ := edge.accepts_by_label built endOfInput endOfInput 10 4
  obtain ⟨label, isLabel, same⟩ := negated rfl
  cases isLabel
  exact ⟨built, rfl, accepted, same.symm.trans accepted⟩

end Edge

end Recognizer
