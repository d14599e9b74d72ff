import Recognizer.Index
import Recognizer.Text.Decimal

/-!
# Conditions

A condition guards a path of the automaton. It is described here and evaluated by the prediction
engine: a semantic predicate of a rule, a check of the current precedence level, or no condition.
-/

namespace Recognizer

/-- A semantic predicate of a rule. -/
structure Predicate where
  rule : RuleIndex
  index : PredicateIndex
  /-- The evaluation needs the rule context in which the predicate stands. -/
  inContext : Bool
  deriving DecidableEq, Repr

/-- The condition text of what always holds. -/
def alwaysText : String :=
  "\x7btrue\x7d?"

namespace Predicate

/-- The placeholder that always holds: no rule and no predicate has its indices. -/
def always : Predicate :=
  ⟨0xFFFFFFFF, 0xFFFFFFFF, false⟩

/-- The indices are those of the placeholder. -/
def isAlways (predicate : Predicate) : Bool :=
  predicate.rule == always.rule && predicate.index == always.index

def text (predicate : Predicate) : String :=
  if predicate.isAlways then alwaysText
  else "\x7b" ++ Text.uint32 predicate.rule ++ ":" ++ Text.uint32 predicate.index ++ "\x7d?"

end Predicate

/-- The check of a left-recursive rule that its precedence level is at most `level`. -/
structure PrecedenceCheck where
  level : Int32
  deriving DecidableEq, Repr

namespace PrecedenceCheck

instance : LT PrecedenceCheck := ⟨fun a b => a.level < b.level⟩

instance (a b : PrecedenceCheck) : Decidable (a < b) :=
  inferInstanceAs (Decidable (a.level < b.level))

instance : Max PrecedenceCheck := ⟨fun a b => ⟨max a.level b.level⟩⟩

/-- The level that the current precedence must not exceed. -/
def text (check : PrecedenceCheck) : String :=
  "\x7b" ++ Text.int32 check.level ++ ">=prec\x7d?"

end PrecedenceCheck

/-- What has to hold on a path of the automaton. -/
inductive Condition
  /-- Nothing: the path is always viable. -/
  | always
  | predicate (predicate : Predicate)
  | precedence (check : PrecedenceCheck)
  deriving DecidableEq, Repr, Inhabited

namespace Condition

/-- There is nothing to check. A placeholder predicate still counts as a check. -/
def isAlways : Condition → Bool
  | always => true
  | _ => false

/-- The evaluation needs the live rule context; a precedence check always does. -/
def inContext : Condition → Bool
  | always => false
  | predicate p => p.inContext
  | precedence _ => true

def text : Condition → String
  | always => alwaysText
  | predicate p => p.text
  | precedence check => check.text

end Condition

end Recognizer
