import Recognizer.Proofs.Tree.Visits
import Recognizer.Proofs.Tree.Yield

/-!
# Outlines

An `Outline` is what stands at and below some nodes, as far as the renderings of a tree look at it.
`Unfolds` relates nodes of an arena to their outline.  It has no case for a node that does not
exist, so where it holds, no child was passed over on the way.

Text, walk, bracketed form and snapshot of a node are read off its outline (`Unfolds.text?_eq`,
`Unfolds.walk?_eq`, `Unfolds.bracketed?_eq`, `Unfolds.snapshot?_eq`).  If child lists name existing
nodes only, every existing node has one where following them ends (`exists_unfolds`).
-/

namespace Recognizer.Tree

open Relation (ReflTransGen TransGen)

/-! ## Outlines and what they show -/

/-- Nodes and what stands below them, one node after the other. -/
inductive Outline
  | nil
  | leaf (id : NodeId) (kind : LeafKind) (token : Token) (rest : Outline)
  | context (id : NodeId) (rule : Option RuleIndex) (alt : Option UInt32) (span : Option Interval)
      (below rest : Outline)

/-- The name of a rule, which may not be resolved. -/
def resolvedName (names : RuleNames) (rule : Option RuleIndex) : String :=
  (rule.bind names).getD unknownRule

/-- The name of a rule and the alternative, if one was chosen. -/
def ruleLabel (name : String) : Option UInt32 → String
  | some alt => name ++ ":" ++ Text.uint32 alt
  | none => name

namespace Outline

/-- The number of nodes side by side, not counting those below them. -/
def length : Outline → Nat
  | nil => 0
  | leaf _ _ _ rest => rest.length + 1
  | context _ _ _ _ _ rest => rest.length + 1

/-- The tokens of the leaves. -/
def tokens : Outline → List Token
  | nil => []
  | leaf _ _ token rest => token :: rest.tokens
  | context _ _ _ _ below rest => below.tokens ++ rest.tokens

/-- What a walk reports. -/
def visits : Outline → List Visit
  | nil => []
  | leaf id kind _ rest => .ofLeaf id kind :: rest.visits
  | context id rule _ _ below rest =>
    .enterEvery id :: rule.toList.map (.enter id) ++ below.visits ++ rule.toList.map (.exit id) ++
      .exitEvery id :: rest.visits

/-- The trees of labels. -/
def labels (names : RuleNames) : Outline → List LabelTree
  | nil => []
  | leaf _ _ token rest => .node (Text.escape false token.displayText) [] :: rest.labels names
  | context _ rule alt _ below rest =>
    .node (Text.escape false (ruleLabel (resolvedName names rule) alt)) (below.labels names) ::
      rest.labels names

/-- The snapshots. -/
def snapshots (names : RuleNames) : Outline → List Snapshot
  | nil => []
  | leaf _ kind token rest => .leaf kind token :: rest.snapshots names
  | context _ rule alt span below rest =>
    .rule (resolvedName names rule) alt span (below.snapshots names) ::
      rest.snapshots names

variable (names : RuleNames)

theorem length_snapshots (outline : Outline) :
    (outline.snapshots names).length = outline.length := by
  induction outline with
  | nil => rfl
  | leaf _ _ _ _ ih | context _ _ _ _ _ _ _ ih => exact congrArg Nat.succ ih

end Outline

/-! ## Outlines of nodes -/

/-- The outline of nodes, each of which exists. -/
inductive Unfolds (arena : Arena) : List NodeId → Outline → Prop
  | nil : Unfolds arena [] .nil
  | leaf {id : NodeId} {leaf : Leaf} {ids : List NodeId} {rest : Outline}
      (found : arena.node? id = some (.leaf leaf)) (others : Unfolds arena ids rest) :
      Unfolds arena (id :: ids) (.leaf id leaf.kind leaf.token rest)
  | context {id : NodeId} {context : Context} {inner : Outline} {ids : List NodeId}
      {rest : Outline} (found : arena.node? id = some (.context context))
      (below : Unfolds arena context.children inner) (others : Unfolds arena ids rest) :
      Unfolds arena (id :: ids)
        (.context id context.rule context.alt (arena.span? id) inner rest)

/-- Child lists name existing nodes only. -/
def Arena.Closed (arena : Arena) : Prop :=
  ∀ id child, arena.Holds id child → child.index < arena.size

variable {arena : Arena} {names : RuleNames} {ids : List NodeId} {id : NodeId} {outline : Outline}
  {budget : Nat}

theorem Arena.Closed.below (closed : arena.Closed) {context : Context}
    (found : arena.node? id = some (.context context)) :
    ∀ child ∈ context.children, child.index < arena.size := by
  intro child listed
  refine closed id child ?_
  rw [Arena.Holds, Arena.children_of_node? found]
  exact listed

/-- All that is found by following child lists from an existing node exists. -/
theorem Arena.Closed.lt_size_of_reaches (closed : arena.Closed) (inside : id.index < arena.size)
    {x : NodeId} (path : ReflTransGen arena.Holds id x) : x.index < arena.size := by
  induction path with
  | refl => exact inside
  | tail _ listed _ => exact closed _ _ listed

/-- Where child lists name existing nodes and end, there is an outline. -/
theorem exists_unfolds (closed : arena.Closed) (inside : ∀ id ∈ ids, id.index < arena.size)
    (ends : ∀ id ∈ ids, EndsWithin arena.below? budget id) :
    ∃ outline, Unfolds arena ids outline := by
  refine endsWithin_induction
    (motive := fun ids =>
      (∀ id ∈ ids, id.index < arena.size) → ∃ outline, Unfolds arena ids outline)
    (fun _ => ⟨.nil, .nil⟩) ?_ ?_ ends inside
  · intro id ids noContext unfolded inside
    obtain ⟨here, insideRest⟩ := List.forall_mem_cons.mp inside
    obtain ⟨rest, others⟩ := unfolded insideRest
    obtain ⟨node, found⟩ := Arena.exists_node?_of_lt_size here
    rcases node with ⟨l⟩ | ⟨c⟩
    · exact ⟨_, .leaf found others⟩
    · cases noContext.symm.trans (Arena.context?_eq_some_iff.mpr found)
  · intro id ids context found unfoldedBelow unfolded inside
    obtain ⟨inner, below⟩ := unfoldedBelow (closed.below found)
    obtain ⟨rest, others⟩ := unfolded (List.forall_mem_cons.mp inside).2
    exact ⟨_, .context found below others⟩

theorem Arena.EndsBelow.within (ends : arena.EndsBelow id) :
    ∀ x ∈ [id], EndsWithin arena.below? arena.heightLimit x :=
  List.forall_mem_singleton.mpr (Arena.endsWithin_below?_iff.mpr ends)

theorem Arena.EndsBelow.exists_unfolds (ends : arena.EndsBelow id) (closed : arena.Closed)
    (inside : id.index < arena.size) : ∃ outline, Unfolds arena [id] outline :=
  Tree.exists_unfolds closed (List.forall_mem_singleton.mpr inside) ends.within

namespace Arena

variable {context : Context} {leaf : Leaf}

theorem rule?_of_node? (found : arena.node? id = some (.context context)) :
    arena.rule? id = context.rule := by
  rw [rule?, context?_eq_some_iff.mpr found]
  rfl

theorem ruleName_of_node? (found : arena.node? id = some (.context context)) :
    arena.ruleName names id = resolvedName names context.rule := by
  rw [ruleName, rule?_of_node? found]
  rfl

theorem visibleLabel_of_leaf (found : arena.node? id = some (.leaf leaf)) :
    arena.visibleLabel names id = Text.escape false leaf.token.displayText := by
  rw [visibleLabel, label, found]

theorem visibleLabel_of_context (found : arena.node? id = some (.context context)) :
    arena.visibleLabel names id =
      Text.escape false (ruleLabel (resolvedName names context.rule) context.alt) := by
  have name : arena.ruleName names id = resolvedName names context.rule := ruleName_of_node? found
  rw [visibleLabel, label, found, ← name]
  rfl

theorem labelsWithin_of_leaf (found : arena.node? id = some (.leaf leaf)) :
    arena.labelsWithin names budget id =
      some (.node (Text.escape false leaf.token.displayText) []) := by
  cases budget <;>
    rw [labelsWithin, context?_of_leaf found, visibleLabel_of_leaf found]

theorem labelsWithin_of_context (found : arena.node? id = some (.context context)) :
    arena.labelsWithin names (budget + 1) id =
      (context.children.mapM (arena.labelsWithin names budget)).map
        (.node (Text.escape false (ruleLabel (resolvedName names context.rule) context.alt))) := by
  rw [labelsWithin, context?_eq_some_iff.mpr found, visibleLabel_of_context found]

theorem snapshotWithin_of_leaf (found : arena.node? id = some (.leaf leaf)) :
    arena.snapshotWithin names budget id = some (some (.leaf leaf.kind leaf.token)) := by
  cases budget <;> rw [snapshotWithin, found]

theorem snapshotWithin_of_context (found : arena.node? id = some (.context context)) :
    arena.snapshotWithin names (budget + 1) id =
      (context.children.mapM (arena.snapshotWithin names budget)).map fun children =>
        some (.rule (resolvedName names context.rule) context.alt (arena.span? id)
          (children.filterMap fun child => child)) := by
  rw [snapshotWithin, found, ruleName_of_node? found]

end Arena

/-- The one answer of a traversal of one element. -/
theorem answer_of_mapM {α β : Type} {f : α → Option β} {x : α} {answers : List β}
    (answered : [x].mapM f = some answers) : f x = answers.head? := by
  rw [List.mapM_cons] at answered
  rcases found : f x with - | answer
  · rw [found] at answered
    cases answered
  · rw [found] at answered
    cases answered
    rfl

namespace Unfolds

theorem length_eq (unfolds : Unfolds arena ids outline) : outline.length = ids.length := by
  induction unfolds with
  | nil => rfl
  | leaf _ _ ih | context _ _ _ _ ih => exact congrArg Nat.succ ih

theorem yields (unfolds : Unfolds arena ids outline) : Yields arena [] ids outline.tokens := by
  induction unfolds with
  | nil => exact .nil
  | @leaf id leaf ids rest found _ ih =>
    have token : arena.token? id = some leaf.token := by
      rw [Arena.token?, found]
      rfl
    exact .leaf List.not_mem_nil token ih
  | @context id context inner ids rest found _ _ ihBelow ih =>
    have children : arena.children id = context.children := Arena.children_of_node? found
    rw [← children] at ihBelow
    exact .context List.not_mem_nil (Arena.isContext_iff.mpr ⟨_, found⟩) ihBelow ih

theorem visits (unfolds : Unfolds arena ids outline) : Visits arena ids outline.visits := by
  induction unfolds with
  | nil => exact .nil
  | leaf found _ ih => exact .leaf found ih
  | context found _ _ ihBelow ih => exact .context found ihBelow ih

theorem labels (unfolds : Unfolds arena ids outline)
    (ends : ∀ id ∈ ids, EndsWithin arena.below? budget id) :
    ids.mapM (arena.labelsWithin names budget) = some (outline.labels names) := by
  induction unfolds generalizing budget with
  | nil => rfl
  | leaf found _ ih =>
    obtain ⟨-, endsRest⟩ := List.forall_mem_cons.mp ends
    rw [List.mapM_cons, Arena.labelsWithin_of_leaf found, ih endsRest]
    rfl
  | context found _ _ ihBelow ih =>
    obtain ⟨endsHere, endsRest⟩ := List.forall_mem_cons.mp ends
    have isContext := Arena.context?_eq_some_iff.mpr found
    rcases budget with - | budget
    · exact absurd endsHere (Arena.not_endsWithin_below?_zero isContext)
    · have endsBelow := (Arena.endsWithin_below?_succ isContext).mp endsHere
      rw [List.mapM_cons, Arena.labelsWithin_of_context found, ihBelow endsBelow, ih endsRest]
      rfl

theorem snapshots (unfolds : Unfolds arena ids outline)
    (ends : ∀ id ∈ ids, EndsWithin arena.below? budget id) :
    ids.mapM (arena.snapshotWithin names budget) = some ((outline.snapshots names).map some) := by
  induction unfolds generalizing budget with
  | nil => rfl
  | leaf found _ ih =>
    obtain ⟨-, endsRest⟩ := List.forall_mem_cons.mp ends
    rw [List.mapM_cons, Arena.snapshotWithin_of_leaf found, ih endsRest]
    rfl
  | @context id context inner ids rest found _ _ ihBelow ih =>
    obtain ⟨endsHere, endsRest⟩ := List.forall_mem_cons.mp ends
    have isContext := Arena.context?_eq_some_iff.mpr found
    rcases budget with - | budget
    · exact absurd endsHere (Arena.not_endsWithin_below?_zero isContext)
    · have endsBelow := (Arena.endsWithin_below?_succ isContext).mp endsHere
      have allThere : ((inner.snapshots names).map some).filterMap (fun child => child) =
          inner.snapshots names := by
        rw [List.filterMap_map]
        exact List.filterMap_some
      rw [List.mapM_cons, Arena.snapshotWithin_of_context found, ihBelow endsBelow, ih endsRest,
        Option.map_some, allThere]
      rfl

/-! ## Answers of an outline -/

theorem text?_eq (unfolds : Unfolds arena [id] outline) (ends : arena.EndsBelow id) :
    arena.text? id = some (String.join (outline.tokens.map Token.displayText)) :=
  unfolds.yields.text?_eq ends

theorem walk?_eq (unfolds : Unfolds arena [id] outline) (ends : arena.EndsBelow id) :
    arena.walk? id = some outline.visits.toArray := by
  refine (Arena.walkTasks_of_visits unfolds.visits ends.within [] #[]).trans ?_
  rw [Arena.walkTasks]
  simp

theorem bracketed?_eq (unfolds : Unfolds arena [id] outline) (ends : arena.EndsBelow id) :
    arena.bracketed? names id = (outline.labels names).head?.map LabelTree.print :=
  congrArg (Option.map LabelTree.print) (answer_of_mapM (unfolds.labels ends.within))

theorem snapshot?_eq (unfolds : Unfolds arena [id] outline) (ends : arena.EndsBelow id) :
    arena.snapshot? names id = (outline.snapshots names).head?.map some :=
  (answer_of_mapM (unfolds.snapshots ends.within)).trans List.head?_map

/-- The snapshot of a context has a child for each node in its child list. -/
theorem snapshot?_of_isContext (unfolds : Unfolds arena [id] outline) (ends : arena.EndsBelow id)
    (isContext : arena.IsContext id) :
    ∃ name alt span children,
      arena.snapshot? names id = some (some (.rule name alt span children)) ∧
        children.length = (arena.children id).length := by
  have answered : arena.snapshot? names id = _ := unfolds.snapshot?_eq ends
  obtain ⟨context, found⟩ := Arena.isContext_iff.mp isContext
  cases unfolds with
  | leaf foundToo _ => cases found.symm.trans foundToo
  | @context _ _ inner _ _ foundToo below _ =>
    cases found.symm.trans foundToo
    refine ⟨_, _, _, inner.snapshots names, answered, ?_⟩
    rw [Outline.length_snapshots, below.length_eq, Arena.children_of_node? found]
    rfl

end Unfolds

end Recognizer.Tree
