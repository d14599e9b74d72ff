import Recognizer.Condition
import Recognizer.SymbolSet.Basic

/-!
# Edges of the automaton

An `Edge` leads to a state by a `Move`. Some moves consume a symbol and the others consume nothing:
they call a rule, check a condition, run an action or just go on. Each move belongs to one of ten
kinds, whose codes are part of the persisted form of the automaton.
-/

namespace Recognizer

/-- The kinds of moves. -/
inductive EdgeKind
  | epsilon
  | range
  | rule
  | predicate
  | atom
  | action
  | set
  | notSet
  | wildcard
  | precedence
  deriving DecidableEq, Repr

namespace EdgeKind

def all : List EdgeKind :=
  [epsilon, range, rule, predicate, atom, action, set, notSet, wildcard, precedence]

def code : EdgeKind → UInt32
  | epsilon => 1
  | range => 2
  | rule => 3
  | predicate => 4
  | atom => 5
  | action => 6
  | set => 7
  | notSet => 8
  | wildcard => 9
  | precedence => 10

def ofCode? (code : UInt32) : Option EdgeKind :=
  all.find? fun kind => kind.code == code

/-- The name of a kind in dumps of the automaton. -/
def name : EdgeKind → String
  | epsilon => "EPSILON"
  | range => "RANGE"
  | rule => "RULE"
  | predicate => "PREDICATE"
  | atom => "ATOM"
  | action => "ACTION"
  | set => "SET"
  | notSet => "NOT_SET"
  | wildcard => "WILDCARD"
  | precedence => "PRECEDENCE"

end EdgeKind

/-- What an edge does on the way to its target. -/
inductive Move
  /-- Go on. The edge that leaves the outermost precedence loop of a left-recursive rule names that
  rule. -/
  | epsilon (outermost : Option RuleIndex)
  /-- Consume one symbol from `lo` to `hi`. -/
  | range (lo hi : Symbol)
  /-- Call a rule, whose start state is the target of the edge, and continue at `follow`. -/
  | call (rule : RuleIndex) (precedence : Int32) (follow : StateId)
  /-- Check a predicate. -/
  | predicate (predicate : Predicate)
  /-- Consume one given symbol. -/
  | atom (label : Symbol)
  /-- Run an embedded action; an action handled inline has no index. -/
  | action (rule : RuleIndex) (index : Option ActionIndex) (inContext : Bool)
  /-- Consume one member of a set. -/
  | set (label : SymbolSet)
  /-- Consume one symbol of the vocabulary that is no member of a set. -/
  | notSet (excluded : SymbolSet)
  /-- Consume any symbol of the vocabulary. -/
  | wildcard
  /-- Check the precedence level of a left-recursive rule. -/
  | precedence (check : PrecedenceCheck)
  deriving DecidableEq, Repr

def Move.kind : Move → EdgeKind
  | epsilon _ => .epsilon
  | range _ _ => .range
  | call _ _ _ => .rule
  | predicate _ => .predicate
  | atom _ => .atom
  | action _ _ _ => .action
  | set _ => .set
  | notSet _ => .notSet
  | wildcard => .wildcard
  | precedence _ => .precedence

/-- A directed edge to `target`. -/
structure Edge where
  target : StateId
  move : Move
  deriving DecidableEq, Repr

namespace Edge

def kind (edge : Edge) : EdgeKind :=
  edge.move.kind

/-- Where the recognizer continues after the rule that the edge calls. -/
def follow? (edge : Edge) : Option StateId :=
  match edge.move with
  | .call _ _ follow => some follow
  | _ => none

/-- The condition that guards the edge. -/
def condition (edge : Edge) : Condition :=
  match edge.move with
  | .predicate predicate => .predicate predicate
  | .precedence check => .precedence check
  | _ => .always

end Edge

end Recognizer
