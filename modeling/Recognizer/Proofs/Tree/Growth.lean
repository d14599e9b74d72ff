import Recognizer.Proofs.Tree.Outline
import Recognizer.Proofs.Tree.Refusal

/-!
# Arenas grow

Whatever ids they are given, and whether they are carried out or refused, edits only add nodes to an
arena.  `Revised` is what an edit can do to it.  Each of these keeps what the nodes were created as
(`Arena.Extends`) and lets child lists name existing nodes only (`Arena.Closed`), and changes one
child list at its end at most (`Arena.EndsDiffer`).

`Reached.append_only` says so of runs that go on after refusals, and draws the conclusion for the
renderings: below a node that exists they meet no node that does not.
-/

namespace Recognizer.Tree

open Relation (ReflTransGen)

/-! ## What an edit can do -/

/-- What a node is from its creation on: the kind and the token of a leaf, and the rule of a
context. -/
def Node.origin : Node → (LeafKind × Token) ⊕ Option RuleIndex
  | leaf l => .inl (l.kind, l.token)
  | context c => .inr c.rule

theorem Node.origin_withParent (parent : NodeId) (node : Node) :
    (node.withParent parent).origin = node.origin := by
  cases node <;> rfl

theorem Node.origin_onContext {change : Context → Context}
    (keeps : ∀ context, (change context).rule = context.rule) (node : Node) :
    (node.onContext change).origin = node.origin := by
  cases node with
  | leaf l => rfl
  | context c => exact congrArg Sum.inr (keeps c)

/-- The arenas that one edit can make of an arena, if it is refused too. -/
inductive Revised (arena : Arena) : Arena → Prop
  | same : Revised arena arena
  /-- A node is added. -/
  | push {node : Node} (childless : node.children = []) : Revised arena (arena.push node)
  /-- A node is added and listed by a context. -/
  | pushBelow {id : NodeId} {node : Node} (childless : node.children = [])
      (isContext : arena.IsContext id) :
      Revised arena ((arena.push node).append id arena.nextId)
  /-- Links or spans change. -/
  | change {id : NodeId} {change : Node → Node}
      (origin : ∀ node, (change node).origin = node.origin)
      (children : ∀ node, (change node).children = node.children) :
      Revised arena (arena.modify id change)
  /-- An existing node is linked to a parent and listed by it. -/
  | adopt {id child : NodeId} (inside : child.index < arena.size) :
      Revised arena ((arena.modify child (.withParent id)).append id child)
  | dropLast {id : NodeId} : Revised arena (arena.dropLast id)

variable {arena after final : Arena} {mutation : Mutation}

theorem Revised.onContext {id : NodeId} {change : Context → Context}
    (rule : ∀ context, (change context).rule = context.rule)
    (children : ∀ context, (change context).children = context.children) :
    Revised arena (arena.modify id (.onContext change)) :=
  .change (Node.origin_onContext rule) (Node.children_onContext children)

theorem Mutation.revised_apply (admitted : mutation.Admitted arena) :
    Revised arena (mutation.apply arena) := by
  cases mutation with
  | create parent invokingState rule => exact .push rfl
  | inherit id source =>
    obtain ⟨giver, found⟩ := Option.isSome_iff_exists.mp admitted.1
    rw [apply, found]
    exact .onContext (fun _ => rfl) fun _ => rfl
  | addLeaf id kind token => exact .pushBelow rfl admitted
  | addChild id child => exact .adopt admitted.2.1
  | removeLastChild id => exact .dropLast
  | setStart id token | setStop id token | setAlt id alt =>
    exact .onContext (fun _ => rfl) fun _ => rfl

theorem Mutation.revised_residue : Revised arena (mutation.residue arena) := by
  cases mutation with
  | addLeaf id kind token => exact .push rfl
  | addChild id child =>
    unfold residue
    dsimp only
    split
    · exact .change (Node.origin_withParent id) (Node.children_withParent id)
    · exact .same
  | create _ _ _ | inherit _ _ | removeLastChild _ => exact .same
  | setStart _ _ | setStop _ _ | setAlt _ _ => exact .same

theorem Mutation.revised_leave (arena : Arena) (mutation : Mutation) :
    Revised arena (mutation.leave arena) := by
  by_cases admitted : mutation.Admitted arena
  · rw [leave_of_admitted admitted]
    exact revised_apply admitted
  · rw [leave_of_refused admitted]
    exact revised_residue

/-! ## What it keeps -/

namespace Arena

/-- The nodes of an arena are in another one, created as the same. -/
structure Extends (arena after : Arena) : Prop where
  size : arena.size ≤ after.size
  origin : ∀ id, id.index < arena.size →
    (after.node? id).map Node.origin = (arena.node? id).map Node.origin

/-- One child list at most differs, and by an element at its end at most. -/
def EndsDiffer (arena after : Arena) : Prop :=
  ∃ target, (∀ id, id ≠ target → after.children id = arena.children id) ∧
    (after.children target = arena.children target ∨
      (∃ child, after.children target = arena.children target ++ [child]) ∨
      after.children target = (arena.children target).dropLast)

theorem rule?_eq_some_iff {id : NodeId} {rule : RuleIndex} :
    arena.rule? id = some rule ↔ (arena.node? id).map Node.origin = some (.inr (some rule)) := by
  unfold rule? context?
  rcases arena.node? id with - | ⟨l⟩ | ⟨c⟩ <;> simp [Node.context?, Node.origin]

namespace Extends

theorem refl (arena : Arena) : arena.Extends arena :=
  ⟨Nat.le_refl _, fun _ _ => rfl⟩

theorem trans (first : arena.Extends after) (second : after.Extends final) :
    arena.Extends final where
  size := Nat.le_trans first.size second.size
  origin id inside :=
    (second.origin id (Nat.lt_of_lt_of_le inside first.size)).trans (first.origin id inside)

theorem push (arena : Arena) (node : Node) : arena.Extends (arena.push node) where
  size := by
    rw [size_push]
    exact Nat.le_succ _
  origin id inside := by rw [node?_push, if_neg (ne_nextId_of_lt_size inside)]

theorem modify (arena : Arena) (id : NodeId) {change : Node → Node}
    (keeps : ∀ node, (change node).origin = node.origin) :
    arena.Extends (arena.modify id change) where
  size := Nat.le_of_eq (size_modify arena id change).symm
  origin x _ := by
    rw [node?_modify]
    split
    · rw [Option.map_map]
      exact Option.map_congr fun node _ => keeps node
    · rfl

theorem append (arena : Arena) (id child : NodeId) : arena.Extends (arena.append id child) :=
  modify arena id (Node.origin_onContext fun _ => rfl)

theorem dropLast (arena : Arena) (id : NodeId) : arena.Extends (arena.dropLast id) :=
  modify arena id (Node.origin_onContext fun _ => rfl)

/-- A context keeps its rule. -/
theorem rule? (extended : arena.Extends after) {id : NodeId} {rule : RuleIndex}
    (found : arena.rule? id = some rule) : after.rule? id = some rule := by
  obtain ⟨context, isContext, _⟩ := Option.bind_eq_some_iff.mp found
  have inside := lt_size_of_node? (context?_eq_some_iff.mp isContext)
  rw [rule?_eq_some_iff] at found ⊢
  exact (extended.origin id inside).trans found

end Extends

theorem Closed.empty : empty.Closed := by
  intro id child listed
  cases listed

theorem Closed.push (closed : arena.Closed) {node : Node} (childless : node.children = []) :
    (arena.push node).Closed := by
  intro id child listed
  rw [Holds, children_push, childless] at listed
  rw [size_push]
  split at listed
  · cases listed
  · exact Nat.lt_succ_of_lt (closed id child listed)

theorem Closed.modify (closed : arena.Closed) {target : NodeId} {change : Node → Node}
    (keeps : ∀ node, (change node).children = node.children) :
    (arena.modify target change).Closed := by
  intro id child listed
  rw [Holds, children_modify_of_keeps keeps] at listed
  rw [size_modify]
  exact closed id child listed

theorem Closed.append (closed : arena.Closed) {target child : NodeId}
    (inside : child.index < arena.size) : (arena.append target child).Closed := by
  intro id x listed
  rw [Holds, children_append] at listed
  rw [Arena.append, size_modify]
  split at listed
  · rcases List.mem_append.mp listed with old | new
    · exact closed id x old
    · rw [List.mem_singleton.mp new]
      exact inside
  · exact closed id x listed

theorem Closed.dropLast (closed : arena.Closed) (target : NodeId) :
    (arena.dropLast target).Closed := by
  intro id x listed
  rw [Holds, children_dropLast] at listed
  rw [Arena.dropLast, size_modify]
  split at listed
  · exact closed id x (List.dropLast_subset _ listed)
  · exact closed id x listed

theorem EndsDiffer.of_same (same : ∀ id, after.children id = arena.children id) :
    arena.EndsDiffer after :=
  ⟨arena.nextId, fun id _ => same id, .inl (same _)⟩

theorem EndsDiffer.append {target child : NodeId}
    (same : ∀ id, after.children id = arena.children id) :
    arena.EndsDiffer (after.append target child) := by
  refine ⟨target, fun id other => ?_, ?_⟩
  · rw [children_append, if_neg fun here => other here.1, same]
  · rw [children_append, same]
    split
    · exact .inr (.inl ⟨child, rfl⟩)
    · exact .inl rfl

theorem EndsDiffer.dropLast (arena : Arena) (target : NodeId) :
    arena.EndsDiffer (arena.dropLast target) := by
  refine ⟨target, fun id other => ?_, .inr (.inr ?_)⟩
  · rw [children_dropLast, if_neg other]
  · rw [children_dropLast, if_pos rfl]

end Arena

namespace Revised

theorem grows (revised : Revised arena after) : arena.Extends after := by
  cases revised with
  | same => exact .refl arena
  | push _ => exact .push arena _
  | pushBelow _ _ => exact (Arena.Extends.push arena _).trans (.append _ _ _)
  | change origin _ => exact .modify arena _ origin
  | adopt _ =>
    exact (Arena.Extends.modify arena _ (Node.origin_withParent _)).trans (.append _ _ _)
  | dropLast => exact .dropLast arena _

theorem closed (revised : Revised arena after) (closed : arena.Closed) : after.Closed := by
  cases revised with
  | same => exact closed
  | push childless => exact closed.push childless
  | @pushBelow id node childless _ =>
    refine (closed.push childless).append ?_
    rw [Arena.size_push]
    exact Nat.lt_succ_self _
  | change _ children => exact closed.modify children
  | @adopt id child inside =>
    refine (closed.modify (Node.children_withParent id)).append ?_
    rwa [Arena.size_modify]
  | dropLast => exact closed.dropLast _

theorem endsDiffer (revised : Revised arena after) : arena.EndsDiffer after := by
  cases revised with
  | same => exact .of_same fun _ => rfl
  | push childless => exact .of_same (arena.children_push_of_childless childless)
  | pushBelow childless _ => exact .append (arena.children_push_of_childless childless)
  | change _ children => exact .of_same (Arena.children_modify_of_keeps children)
  | @adopt id child _ => exact .append (arena.children_modify_withParent child id)
  | dropLast => exact .dropLast arena _

end Revised

/-! ## Runs -/

/-- Some edits lead from the empty arena to this one, each of them carried out or refused. -/
inductive Reached : Arena → Prop
  | empty : Reached .empty
  | leave {arena : Arena} (reached : Reached arena) (mutation : Mutation) :
      Reached (mutation.leave arena)

theorem extends_leaveAll (later : List Mutation) (arena : Arena) :
    arena.Extends (later.foldl Mutation.leave arena) := by
  induction later generalizing arena with
  | nil => exact .refl arena
  | cons mutation later ih => exact (mutation.revised_leave arena).grows.trans (ih _)

namespace Reached

theorem leaveAll (reached : Reached arena) (later : List Mutation) :
    Reached (later.foldl Mutation.leave arena) := by
  induction later generalizing arena with
  | nil => exact reached
  | cons mutation later ih => exact ih (reached.leave mutation)

theorem closed (reached : Reached arena) : arena.Closed := by
  induction reached with
  | empty => exact .empty
  | leave _ mutation ih => exact (mutation.revised_leave _).closed ih

/-- Nodes are only ever added: no edit takes one away or changes what it was created as, child lists
name existing nodes, and an edit changes one of them at most, by an element at its end.  So from an
existing node child lists lead to existing nodes only.  Its outline, in which each of them has its
place, is what text, walk, bracketed form and snapshot show, and no child is missing there. -/
theorem append_only (reached : Reached arena) (later : List Mutation) (mutation : Mutation)
    (names : RuleNames) :
    arena.Extends (later.foldl Mutation.leave arena) ∧ arena.Closed ∧
      arena.EndsDiffer (mutation.leave arena) ∧
      ∀ id, id.index < arena.size →
        (∀ x, ReflTransGen arena.Holds id x → x.index < arena.size) ∧
        (arena.EndsBelow id → ∃ outline, Unfolds arena [id] outline ∧
          arena.text? id = some (String.join (outline.tokens.map Token.displayText)) ∧
          arena.walk? id = some outline.visits.toArray ∧
          arena.bracketed? names id = (outline.labels names).head?.map LabelTree.print ∧
          arena.snapshot? names id = (outline.snapshots names).head?.map some ∧
          (arena.IsContext id → ∃ name alt span children,
            arena.snapshot? names id = some (some (.rule name alt span children)) ∧
              children.length = (arena.children id).length)) := by
  refine ⟨extends_leaveAll later arena, reached.closed, (mutation.revised_leave arena).endsDiffer,
    fun id inside => ⟨fun x path => reached.closed.lt_size_of_reaches inside path, fun ends => ?_⟩⟩
  obtain ⟨outline, unfolds⟩ := ends.exists_unfolds reached.closed inside
  exact ⟨outline, unfolds, unfolds.text?_eq ends, unfolds.walk?_eq ends, unfolds.bracketed?_eq ends,
    unfolds.snapshot?_eq ends, unfolds.snapshot?_of_isContext ends⟩

/-- A rule with a token and another rule below it. A leaf was refused in between, and took up an id,
but no place. -/
def aroundRefused : Arena :=
  [Mutation.create none none (some 0), .addLeaf ⟨5⟩ .error (.ofType 3 0),
    .addLeaf ⟨0⟩ .terminal (.ofType 4 0), .create (some ⟨0⟩) none (some 1),
    .addChild ⟨0⟩ ⟨3⟩].foldl Mutation.leave .empty

theorem aroundRefused_append_only :
    Reached aroundRefused ∧ aroundRefused.size = 4 ∧ aroundRefused.EndsBelow ⟨0⟩ ∧
      aroundRefused.children ⟨0⟩ = [⟨2⟩, ⟨3⟩] ∧ ∃ name alt span children,
        aroundRefused.snapshot? (fun _ => none) ⟨0⟩ = some (some (.rule name alt span children)) ∧
          children.length = (aroundRefused.children ⟨0⟩).length := by
  have reached : Reached aroundRefused := Reached.empty.leaveAll _
  have answered : (aroundRefused.snapshot? (fun _ => none) ⟨0⟩).isSome := rfl
  have ends := Arena.isSome_snapshot?.mp answered
  obtain ⟨-, -, -, rendered⟩ := reached.append_only [] (.removeLastChild ⟨0⟩) fun _ => none
  obtain ⟨-, shown⟩ := rendered ⟨0⟩ (by decide)
  obtain ⟨outline, -, -, -, -, -, snapshot⟩ := shown ends
  exact ⟨reached, rfl, ends, rfl, snapshot (by decide)⟩

end Reached

end Recognizer.Tree
