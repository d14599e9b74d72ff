import Recognizer.Edge.Basic

/-!
# Which symbols an edge consumes

`Edge.accepts` decides whether an edge consumes a symbol. Wildcards and negated sets accept symbols
of the vocabulary only, whose bounds the caller gives. `Edge.label?` is the set that is written on
an edge, which for a negated set is the excluded one.
-/

namespace Recognizer

namespace Move

/-- The recognizer crosses the edge without looking at the input. -/
def isEpsilon : Move → Bool
  | epsilon _ | call _ _ _ | predicate _ | action _ _ _ => true
  | _ => false

/-- The move consumes `x`, where the vocabulary reaches from `least` to `greatest`. -/
def accepts (x least greatest : Symbol) : Move → Bool
  | atom label => x == label
  | range lo hi => Interval.contains ⟨lo, hi⟩ x
  | set label => label.contains x
  | notSet excluded => Interval.contains ⟨least, greatest⟩ x && !excluded.contains x
  | wildcard => Interval.contains ⟨least, greatest⟩ x
  | epsilon _ | call _ _ _ | predicate _ | action _ _ _ | precedence _ => false

def label? : Move → Option SymbolSet
  | atom label => some (.singleton label)
  | range lo hi => some (.ofRange lo hi)
  | set label => some label
  | notSet excluded => some excluded
  | _ => none

end Move

namespace Edge

/-- The recognizer crosses the edge without looking at the input: it goes on, calls a rule, checks a
predicate or runs an action. -/
def isEpsilon (edge : Edge) : Bool :=
  edge.move.isEpsilon

/-- The edge consumes `x`, where the vocabulary reaches from `least` to `greatest`. -/
def accepts (edge : Edge) (x least greatest : Symbol) : Bool :=
  edge.move.accepts x least greatest

def label? (edge : Edge) : Option SymbolSet :=
  edge.move.label?

end Edge

end Recognizer
