import Recognizer.SymbolSet.Basic

/-!
# Set tables

The records of the edges of one automaton share a table of symbol sets and refer to a set by its
position. A set that is placed in a table takes the position of the first equal set there; a set
that the table lacks goes to its end.
-/

namespace Recognizer

/-- The sets that edge records refer to by position. -/
structure SetTable where
  sets : Array SymbolSet
  deriving DecidableEq, Repr, Inhabited

namespace SetTable

/-- The table without sets. -/
def empty : SetTable := ⟨#[]⟩

def size (table : SetTable) : Nat :=
  table.sets.size

def get? (table : SetTable) (position : UInt32) : Option SymbolSet :=
  table.sets[position.toNat]?

/-- The position of a set, and the table that holds it. -/
def place (set : SymbolSet) : StateM SetTable UInt32 := fun table =>
  match table.sets.idxOf? set with
  | some position => (UInt32.ofNat position, table)
  | none => (UInt32.ofNat table.size, ⟨table.sets.push set⟩)

end SetTable

end Recognizer
