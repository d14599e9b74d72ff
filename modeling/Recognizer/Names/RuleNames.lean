import Recognizer.Index
import Recognizer.Names.Table

/-!
# Rule names

How the renderings and the trace find the name of a rule. A list resolves a rule to the name at
its position. A name table does so too if it was filled in the order of the rules and no name
repeats, since a repeated name shifts the handles of all names after it.
-/

namespace Recognizer

/-- The names of rules; a rule may have none. -/
abbrev RuleNames := RuleIndex → Option String

/-- A rule's name is the one at its position. -/
def RuleNames.ofList (names : List String) : RuleNames :=
  fun rule => names[rule.toNat]?

/-- A rule's name is the one whose handle is its index. -/
def RuleNames.ofTable (table : NameTable) : RuleNames :=
  fun rule => table.resolve? ⟨rule.toNat⟩

end Recognizer
