/-!
# Indices shared with the automaton

Plain numbers: the automaton owns its states and rules, and the library only refers to them.
-/

namespace Recognizer

/-- A state of the automaton. -/
abbrev StateId := UInt32

/-- A rule of the grammar, in the order of declaration. -/
abbrev RuleIndex := UInt32

/-- A semantic predicate within its rule. -/
abbrev PredicateIndex := UInt32

/-- An embedded action within its rule. -/
abbrev ActionIndex := UInt32

/-- A token type, or one of the reserved negative symbols. -/
abbrev Symbol := Int32

/-- The symbol that ends the input. -/
def endOfInput : Symbol := -1

/-- The symbol that stands for nothing consumed. -/
def nothingConsumed : Symbol := -2

end Recognizer
