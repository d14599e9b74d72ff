import Recognizer.Interval.Json
import Recognizer.Json.Compact
import Recognizer.Token.Json
import Recognizer.Tree.Label

/-!
# Snapshots

A `Snapshot` is a subtree as plain data, independent of the arena and of the names of rules. Its
JSON form names the kind of every node first and leaves out what the node does not have.
-/

namespace Recognizer.Tree

/-- A subtree as plain data. -/
inductive Snapshot
  | rule (name : String) (alt : Option UInt32) (span : Option Interval) (children : List Snapshot)
  | leaf (kind : LeafKind) (token : Token)
  deriving Repr

def LeafKind.tag : LeafKind → String
  | terminal => "terminal"
  | error => "error"

namespace Snapshot

mutual

def decideEq : (x y : Snapshot) → Decidable (x = y)
  | leaf kind token, leaf kind' token' =>
    if h : kind = kind' ∧ token = token' then isTrue (by rw [h.1, h.2])
    else isFalse (by simpa using h)
  | leaf _ _, rule _ _ _ _ => isFalse (by simp)
  | rule _ _ _ _, leaf _ _ => isFalse (by simp)
  | rule name alt span children, rule name' alt' span' children' =>
    if h : name = name' ∧ alt = alt' ∧ span = span' then
      match decideEqAll children children' with
      | isTrue same => isTrue (by rw [h.1, h.2.1, h.2.2, same])
      | isFalse differ => isFalse (by simp [differ])
    else isFalse fun same => by
      injection same with sameName sameAlt sameSpan
      exact h ⟨sameName, sameAlt, sameSpan⟩

def decideEqAll : (xs ys : List Snapshot) → Decidable (xs = ys)
  | [], [] => isTrue rfl
  | [], _ :: _ => isFalse (by simp)
  | _ :: _, [] => isFalse (by simp)
  | x :: xs, y :: ys =>
    match decideEq x y, decideEqAll xs ys with
    | isTrue same, isTrue sameRest => isTrue (by rw [same, sameRest])
    | isFalse differ, _ => isFalse (by simp [differ])
    | _, isFalse differ => isFalse (by simp [differ])

end

instance : DecidableEq Snapshot := decideEq

mutual

def toJson : Snapshot → Json.Value
  | leaf kind token => .obj [("kind", .str kind.tag), ("token", token.toJson)]
  | rule name alt span children =>
    .obj ([("kind", .str "rule"), ("rule", .str name)] ++
      (alt.toList.map fun alt => ("alt", .ofUInt32 alt)) ++
      (span.toList.map fun span => ("span", span.toJson)) ++
      [("children", .arr (toJsonAll children))])

def toJsonAll : List Snapshot → List Json.Value
  | [] => []
  | snapshot :: rest => snapshot.toJson :: toJsonAll rest

end

def text (snapshot : Snapshot) : String :=
  snapshot.toJson.compact

end Snapshot

namespace Arena

/-- The span of a node, if it has been established. -/
def span? (arena : Arena) (id : NodeId) : Option Interval :=
  if (arena.span id).isSet then some (arena.span id) else none

/-- The snapshot of a subtree, with a budget of contexts on every path. A node that does not exist
has none, and a child that does not exist is left out. -/
def snapshotWithin (arena : Arena) (names : RuleNames) :
    Nat → NodeId → Option (Option Snapshot)
  | 0, id =>
    match arena.node? id with
    | none => some none
    | some (.leaf leaf) => some (some (.leaf leaf.kind leaf.token))
    | some (.context _) => none
  | budget + 1, id =>
    match arena.node? id with
    | none => some none
    | some (.leaf leaf) => some (some (.leaf leaf.kind leaf.token))
    | some (.context context) =>
      (context.children.mapM (arena.snapshotWithin names budget)).map fun children =>
        some (.rule (arena.ruleName names id) context.alt (arena.span? id)
          (children.filterMap fun child => child))

/-- The snapshot of a subtree, if following the child lists ends. -/
def snapshot? (arena : Arena) (names : RuleNames) (id : NodeId) : Option (Option Snapshot) :=
  arena.snapshotWithin names arena.heightLimit id

end Arena

end Recognizer.Tree
