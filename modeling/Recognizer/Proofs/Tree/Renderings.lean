import Recognizer.Proofs.Tree.Growth

/-!
# Renderings of one subtree

Four traversals show a subtree: its text and its walk, each with a stack of what is pending, and its
bracketed form and its snapshot, each by recursion.  They show the same leaves and the same contexts
in the same order (`Unfolds.leaves_eq`, `Unfolds.headings_eq`).

A snapshot holds what the others look at: leaves, rule entries and labels can be read off it, and
from these come the text and the bracketed form.  `renderings_agree` puts that together for nodes of
arenas that edits have made, also where several child lists share a node.
-/

namespace Recognizer.Tree

/-! ## Reading a snapshot -/

namespace Snapshot

mutual

/-- The kinds and tokens of the leaves, in order. -/
def leaves : Snapshot → List (LeafKind × Token)
  | leaf kind token => [(kind, token)]
  | rule _ _ _ children => leavesAll children

def leavesAll : List Snapshot → List (LeafKind × Token)
  | [] => []
  | snapshot :: rest => snapshot.leaves ++ leavesAll rest

end

mutual

/-- What the rule entries say of themselves, each entry before those below it. -/
def headings : Snapshot → List (String × Option UInt32 × Option Interval)
  | leaf _ _ => []
  | rule name alt span children => (name, alt, span) :: headingsAll children

def headingsAll : List Snapshot → List (String × Option UInt32 × Option Interval)
  | [] => []
  | snapshot :: rest => snapshot.headings ++ headingsAll rest

end

mutual

/-- The labels of the entries, with whitespace made visible. -/
def labels : Snapshot → LabelTree
  | leaf _ token => .node (Text.escape false token.displayText) []
  | rule name alt _ children => .node (Text.escape false (ruleLabel name alt)) (labelsAll children)

def labelsAll : List Snapshot → List LabelTree
  | [] => []
  | snapshot :: rest => snapshot.labels :: labelsAll rest

end

end Snapshot

/-! ## Reading a walk -/

/-- The leaf that is reported, with its kind. -/
def Visit.leaf? : Visit → Option (LeafKind × NodeId)
  | .terminal id => some (.terminal, id)
  | .error id => some (.error, id)
  | .enterEvery _ | .enter _ _ | .exit _ _ | .exitEvery _ => none

/-- The context that is entered. -/
def Visit.entered? : Visit → Option NodeId
  | .enterEvery id => some id
  | .terminal _ | .error _ | .enter _ _ | .exit _ _ | .exitEvery _ => none

/-- What a snapshot says of a context. -/
def Arena.heading (arena : Arena) (names : RuleNames) (id : NodeId) :
    String × Option UInt32 × Option Interval :=
  (arena.ruleName names id, arena.alt? id, arena.span? id)

section Reports

variable (id : NodeId) (kind : LeafKind) (rule : Option RuleIndex) (inner reports : List Visit)

theorem leaves_ofLeaf :
    (Visit.ofLeaf id kind :: reports).filterMap Visit.leaf? =
      (kind, id) :: reports.filterMap Visit.leaf? := by
  cases kind <;> rfl

theorem entered_ofLeaf :
    (Visit.ofLeaf id kind :: reports).filterMap Visit.entered? =
      reports.filterMap Visit.entered? := by
  cases kind <;> rfl

theorem leaves_context :
    (Visit.enterEvery id :: rule.toList.map (Visit.enter id) ++ inner ++
      rule.toList.map (Visit.exit id) ++ Visit.exitEvery id :: reports).filterMap Visit.leaf? =
      inner.filterMap Visit.leaf? ++ reports.filterMap Visit.leaf? := by
  rcases rule with - | rule <;> simp [List.filterMap_cons, Visit.leaf?]

theorem entered_context :
    (Visit.enterEvery id :: rule.toList.map (Visit.enter id) ++ inner ++
      rule.toList.map (Visit.exit id) ++ Visit.exitEvery id :: reports).filterMap Visit.entered? =
      id :: (inner.filterMap Visit.entered? ++ reports.filterMap Visit.entered?) := by
  rcases rule with - | rule <;> simp [List.filterMap_cons, Visit.entered?]

end Reports

/-! ## Agreement -/

variable {arena other : Arena} {id otherId : NodeId} {ids : List NodeId} {outline : Outline}

namespace Outline

variable (names : RuleNames)

/-- The text is made of the leaves of the snapshots. -/
theorem tokens_eq (outline : Outline) :
    outline.tokens = (Snapshot.leavesAll (outline.snapshots names)).map Prod.snd := by
  induction outline with
  | nil => rfl
  | leaf id kind token rest ih =>
    simp [tokens, snapshots, Snapshot.leavesAll, Snapshot.leaves, ih]
  | context id rule alt span below rest ihBelow ih =>
    simp [tokens, snapshots, Snapshot.leavesAll, Snapshot.leaves, ihBelow, ih]

/-- The labels can be read off the snapshots. -/
theorem labels_eq (outline : Outline) :
    outline.labels names = Snapshot.labelsAll (outline.snapshots names) := by
  induction outline with
  | nil => rfl
  | leaf id kind token rest ih =>
    simp [labels, snapshots, Snapshot.labelsAll, Snapshot.labels, ih]
  | context id rule alt span below rest ihBelow ih =>
    simp [labels, snapshots, Snapshot.labelsAll, Snapshot.labels, ihBelow, ih]

end Outline

namespace Unfolds

variable (names : RuleNames)

/-- The leaves of the snapshots are those that the walk reports. -/
theorem leaves_eq (unfolds : Unfolds arena ids outline) :
    (outline.visits.filterMap Visit.leaf?).map (fun leaf => (leaf.1, arena.token? leaf.2)) =
      (Snapshot.leavesAll (outline.snapshots names)).map fun leaf => (leaf.1, some leaf.2) := by
  induction unfolds with
  | nil => rfl
  | @leaf id leaf ids rest found _ ih =>
    have token : arena.token? id = some leaf.token := by
      rw [Arena.token?, found]
      rfl
    rw [Outline.visits, leaves_ofLeaf, List.map_cons, ih]
    simp [Outline.snapshots, Snapshot.leavesAll, Snapshot.leaves, token]
  | @context id context inner ids rest found _ _ ihBelow ih =>
    rw [Outline.visits, leaves_context, List.map_append, ihBelow, ih]
    simp [Outline.snapshots, Snapshot.leavesAll, Snapshot.leaves]

/-- The rule entries of the snapshots are those of the contexts that the walk enters. -/
theorem headings_eq (unfolds : Unfolds arena ids outline) :
    (outline.visits.filterMap Visit.entered?).map (arena.heading names) =
      Snapshot.headingsAll (outline.snapshots names) := by
  induction unfolds with
  | nil => rfl
  | leaf found _ ih =>
    rw [Outline.visits, entered_ofLeaf, ih]
    rfl
  | @context id context inner ids rest found _ _ ihBelow ih =>
    have heading : arena.heading names id =
        (resolvedName names context.rule, context.alt, arena.span? id) := by
      rw [Arena.heading, Arena.ruleName_of_node? found, Arena.alt?,
        Arena.context?_eq_some_iff.mpr found]
      rfl
    rw [Outline.visits, entered_context, List.map_cons, List.map_append, ihBelow, ih, heading]
    rfl

end Unfolds

/-- The node exists in an arena that edits have made, and its child lists end. -/
structure Arena.Renderable (arena : Arena) (id : NodeId) : Prop where
  reached : Reached arena
  inside : id.index < arena.size
  ends : arena.EndsBelow id

/-- All that is shown of a node is in its snapshot, in the order of its walk. -/
theorem Arena.Renderable.exists_snapshot (renderable : arena.Renderable id) (names : RuleNames) :
    ∃ (reports : List Visit) (snapshot : Snapshot),
      arena.walk? id = some reports.toArray ∧
      arena.snapshot? names id = some (some snapshot) ∧
      arena.text? id = some (String.join (snapshot.leaves.map fun leaf => leaf.2.displayText)) ∧
      arena.bracketed? names id = some snapshot.labels.print ∧
      (reports.filterMap Visit.leaf?).map (fun leaf => (leaf.1, arena.token? leaf.2)) =
        snapshot.leaves.map (fun leaf => (leaf.1, some leaf.2)) ∧
      (reports.filterMap Visit.entered?).map (arena.heading names) = snapshot.headings := by
  obtain ⟨reached, inside, ends⟩ := renderable
  obtain ⟨outline, unfolds⟩ := ends.exists_unfolds reached.closed inside
  obtain ⟨snapshot, single⟩ : ∃ snapshot, outline.snapshots names = [snapshot] := by
    refine List.length_eq_one_iff.mp ?_
    rw [outline.length_snapshots, unfolds.length_eq]
    rfl
  have tokens : outline.tokens = snapshot.leaves.map Prod.snd := by
    rw [outline.tokens_eq names, single, Snapshot.leavesAll, Snapshot.leavesAll, List.append_nil]
  have labels : outline.labels names = [snapshot.labels] := by
    rw [outline.labels_eq, single, Snapshot.labelsAll, Snapshot.labelsAll]
  have leaves := unfolds.leaves_eq names
  rw [single, Snapshot.leavesAll, Snapshot.leavesAll, List.append_nil] at leaves
  have headings := unfolds.headings_eq names
  rw [single, Snapshot.headingsAll, Snapshot.headingsAll, List.append_nil] at headings
  refine ⟨outline.visits, snapshot, unfolds.walk?_eq ends, ?_, ?_, ?_, leaves, headings⟩
  · rw [unfolds.snapshot?_eq ends, single]
    rfl
  · rw [unfolds.text?_eq ends, tokens, List.map_map]
    rfl
  · rw [unfolds.bracketed?_eq ends, labels]
    rfl

/-- What is shown of an existing node agrees, wherever its child lists end: the text is made of the
leaves that the walk reports, these are the leaves of the snapshot, and the contexts that the walk
enters are the rule entries of the snapshot, each before those below it.  The snapshot determines
the text and the bracketed form, of this node and of any other one of any arena, whatever the names
are by which the rules of the two are found. -/
theorem renderings_agree (renderable : arena.Renderable id)
    (renderableToo : other.Renderable otherId) (names otherNames : RuleNames) :
    (∃ (reports : List Visit) (snapshot : Snapshot),
      arena.walk? id = some reports.toArray ∧
      arena.snapshot? names id = some (some snapshot) ∧
      arena.text? id = some (String.join (snapshot.leaves.map fun leaf => leaf.2.displayText)) ∧
      arena.bracketed? names id = some snapshot.labels.print ∧
      (reports.filterMap Visit.leaf?).map (fun leaf => (leaf.1, arena.token? leaf.2)) =
        snapshot.leaves.map (fun leaf => (leaf.1, some leaf.2)) ∧
      (reports.filterMap Visit.entered?).map (arena.heading names) = snapshot.headings) ∧
    (other.snapshot? otherNames otherId = arena.snapshot? names id →
      other.text? otherId = arena.text? id ∧
        other.bracketed? otherNames otherId = arena.bracketed? names id) := by
  have shown := renderable.exists_snapshot names
  refine ⟨shown, fun same => ?_⟩
  obtain ⟨-, snapshot, -, found, text, bracketed, -⟩ := shown
  obtain ⟨-, snapshotToo, -, foundToo, textToo, bracketedToo, -⟩ :=
    renderableToo.exists_snapshot otherNames
  have equal : snapshotToo = snapshot :=
    Option.some.inj (Option.some.inj (foundToo.symm.trans (same.trans found)))
  subst equal
  exact ⟨textToo.trans text.symm, bracketedToo.trans bracketed.symm⟩

/-- A rule that lists one context of another rule twice. -/
def listedTwice : Arena :=
  [Mutation.create none none (some 0), .create none none (some 1),
    .addLeaf ⟨1⟩ .terminal (.ofType 4 0), .addChild ⟨0⟩ ⟨1⟩,
    .addChild ⟨0⟩ ⟨1⟩].foldl Mutation.leave .empty

/-- A rule that lists two contexts of another rule, with equal tokens. -/
def twoListed : Arena :=
  [Mutation.create none none (some 1), .create none none (some 0),
    .addLeaf ⟨1⟩ .terminal (.ofType 4 0), .create none none (some 0),
    .addLeaf ⟨3⟩ .terminal (.ofType 4 0), .addChild ⟨0⟩ ⟨1⟩,
    .addChild ⟨0⟩ ⟨3⟩].foldl Mutation.leave .empty

/-- The snapshot of both. -/
def snapshotOfBoth : Snapshot :=
  let inner := Snapshot.rule "inner" none none [.leaf .terminal (.ofType 4 0)]
  .rule "outer" none none [inner, inner]

/-- The rules of the one have the names of the rules of the other, but in another order. -/
theorem renderings_of_listedTwice :
    let names := RuleNames.ofList ["outer", "inner"]
    let otherNames := RuleNames.ofList ["inner", "outer"]
    listedTwice.Renderable ⟨0⟩ ∧ twoListed.Renderable ⟨0⟩ ∧
      twoListed.snapshot? otherNames ⟨0⟩ = listedTwice.snapshot? names ⟨0⟩ ∧
      listedTwice.children ⟨0⟩ = [⟨1⟩, ⟨1⟩] ∧ twoListed.children ⟨0⟩ = [⟨1⟩, ⟨3⟩] ∧
      twoListed.text? ⟨0⟩ = listedTwice.text? ⟨0⟩ ∧
        twoListed.bracketed? otherNames ⟨0⟩ = listedTwice.bracketed? names ⟨0⟩ := by
  intro names otherNames
  have shown : listedTwice.snapshot? names ⟨0⟩ = some (some snapshotOfBoth) := rfl
  have shownToo : twoListed.snapshot? otherNames ⟨0⟩ = some (some snapshotOfBoth) := rfl
  have ends : listedTwice.EndsBelow ⟨0⟩ :=
    Arena.isSome_snapshot?.mp (Option.isSome_of_eq_some shown)
  have endsToo : twoListed.EndsBelow ⟨0⟩ :=
    Arena.isSome_snapshot?.mp (Option.isSome_of_eq_some shownToo)
  have renderable : listedTwice.Renderable ⟨0⟩ := ⟨Reached.empty.leaveAll _, by decide, ends⟩
  have renderableToo : twoListed.Renderable ⟨0⟩ := ⟨Reached.empty.leaveAll _, by decide, endsToo⟩
  have same := shownToo.trans shown.symm
  obtain ⟨text, bracketed⟩ :=
    (renderings_agree renderable renderableToo names otherNames).2 same
  exact ⟨renderable, renderableToo, same, rfl, rfl, text, bracketed⟩

end Recognizer.Tree
