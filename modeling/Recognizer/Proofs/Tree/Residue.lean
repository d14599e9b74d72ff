import Recognizer.Proofs.Tree.Growth

/-!
# What a refused edit leaves

A refused edit may have added a leaf or linked a child to another parent before it was refused.
`Arena.Remains` says that nothing but that has happened: nodes have their contents, which is all but
their parent link, and child lists are the same.

That is enough for every query downwards to answer as before (`Arena.Remains.query_eq`), since an
outline does not look at parent links (`Unfolds.transfer`).  `Reached.remains_of_refused` puts it
together, with what is left of the edit.
-/

namespace Recognizer.Tree

/-- What a node holds apart from its parent link. -/
def Node.contents : Node → (LeafKind × Token) ⊕ Context
  | leaf l => .inl (l.kind, l.token)
  | context c => .inr (c.withParent none)

theorem Node.contents_withParent (parent : NodeId) (node : Node) :
    (node.withParent parent).contents = node.contents := by
  cases node <;> rfl

/-- The nodes of an arena are in another one with the same contents, and others have no children. -/
structure Arena.Remains (arena after : Arena) : Prop where
  contents : ∀ id, id.index < arena.size →
    (after.node? id).map Node.contents = (arena.node? id).map Node.contents
  children : ∀ id, after.children id = arena.children id

variable {arena after : Arena} {mutation : Mutation} {fault : Fault} {id child : NodeId}
  {ids : List NodeId} {outline : Outline}

namespace Arena

namespace Remains

theorem refl (arena : Arena) : arena.Remains arena :=
  ⟨fun _ _ => rfl, fun _ => rfl⟩

theorem push (arena : Arena) {node : Node} (childless : node.children = []) :
    arena.Remains (arena.push node) where
  contents id inside := by rw [node?_push, if_neg (ne_nextId_of_lt_size inside)]
  children := arena.children_push_of_childless childless

theorem relink (arena : Arena) (child parent : NodeId) :
    arena.Remains (arena.modify child (.withParent parent)) where
  contents id _ := by
    rw [node?_modify]
    split
    · rw [Option.map_map]
      exact Option.map_congr fun node _ => node.contents_withParent parent
    · rfl
  children := arena.children_modify_withParent child parent

theorem leaf (remains : arena.Remains after) {leaf : Leaf}
    (found : arena.node? id = some (.leaf leaf)) :
    ∃ parent, after.node? id = some (.leaf ⟨leaf.kind, leaf.token, parent⟩) := by
  have same := remains.contents id (lt_size_of_node? found)
  rw [found, Option.map_some] at same
  obtain ⟨node, foundAfter, contents⟩ := Option.map_eq_some_iff.mp same
  rcases node with ⟨l⟩ | ⟨c⟩
  · obtain ⟨kind, token⟩ := Prod.mk.inj (Sum.inl.inj contents)
    rw [← kind, ← token]
    exact ⟨l.parent, foundAfter⟩
  · cases contents

theorem context (remains : arena.Remains after) {context : Context}
    (found : arena.node? id = some (.context context)) :
    ∃ parent, after.node? id = some (.context (context.withParent parent)) := by
  have same := remains.contents id (lt_size_of_node? found)
  rw [found, Option.map_some] at same
  obtain ⟨node, foundAfter, contents⟩ := Option.map_eq_some_iff.mp same
  rcases node with ⟨l⟩ | ⟨c⟩
  · cases contents
  · refine ⟨c.parent, ?_⟩
    have again := congrArg (·.withParent c.parent) (Sum.inr.inj contents)
    exact foundAfter.trans (congrArg (some ∘ Node.context) again)

theorem span (remains : arena.Remains after) (inside : id.index < arena.size) :
    after.span id = arena.span id := by
  obtain ⟨node, found⟩ := exists_node?_of_lt_size inside
  rcases node with ⟨l⟩ | ⟨c⟩
  · obtain ⟨parent, foundAfter⟩ := remains.leaf found
    rw [Arena.span, Arena.span, found, foundAfter]
  · obtain ⟨parent, foundAfter⟩ := remains.context found
    rw [Arena.span, Arena.span, found, foundAfter]
    rcases c with ⟨_, _, _, _, - | start, - | stop, _⟩ <;> rfl

theorem endsBelow_iff (remains : arena.Remains after) :
    after.EndsBelow id ↔ arena.EndsBelow id := by
  have same : after.Holds = arena.Holds := by
    funext x y
    rw [Holds, Holds, remains.children]
  rw [EndsBelow, EndsBelow, same]

end Remains

end Arena

/-- Outlines do not look at parent links. -/
theorem Unfolds.transfer (unfolds : Unfolds arena ids outline) (remains : arena.Remains after) :
    Unfolds after ids outline := by
  induction unfolds with
  | nil => exact .nil
  | @leaf id leaf ids rest found _ ih =>
    obtain ⟨parent, foundAfter⟩ := remains.leaf found
    exact @Unfolds.leaf after id ⟨leaf.kind, leaf.token, parent⟩ ids rest foundAfter ih
  | @context id context inner ids rest found _ _ ihBelow ih =>
    obtain ⟨parent, foundAfter⟩ := remains.context found
    have span : after.span? id = arena.span? id := by
      rw [Arena.span?, Arena.span?, remains.span (Arena.lt_size_of_node? found)]
    rw [← span]
    exact @Unfolds.context after id (context.withParent parent) inner ids rest foundAfter ihBelow ih

/-- A query that ends where child lists do and is answered by the outline answers as before. -/
theorem Arena.Remains.query_eq (remains : arena.Remains after) (closed : arena.Closed)
    (inside : id.index < arena.size) {α : Type} {query : Arena → Option α}
    {shown : Outline → Option α} (ends : ∀ {arena}, (query arena).isSome ↔ arena.EndsBelow id)
    (shows : ∀ {arena outline}, Unfolds arena [id] outline → arena.EndsBelow id →
      query arena = shown outline) : query after = query arena := by
  by_cases endsHere : arena.EndsBelow id
  · obtain ⟨outline, unfolds⟩ := endsHere.exists_unfolds closed inside
    have endsAfter := remains.endsBelow_iff.mpr endsHere
    rw [shows unfolds endsHere, shows (unfolds.transfer remains) endsAfter]
  · have endless := Option.not_isSome_iff_eq_none.mp (mt ends.mp endsHere)
    have endlessAfter := mt remains.endsBelow_iff.mp endsHere
    rw [endless, Option.not_isSome_iff_eq_none.mp (mt ends.mp endlessAfter)]

/-! ## Refusals -/

namespace Mutation

theorem residue_remains (arena : Arena) (mutation : Mutation) :
    arena.Remains (mutation.residue arena) := by
  cases mutation with
  | addLeaf id kind token => exact .push arena rfl
  | addChild id child =>
    unfold residue
    dsimp only
    split
    · exact .relink arena child id
    · exact .refl arena
  | create _ _ _ | inherit _ _ | removeLastChild _ => exact .refl arena
  | setStart _ _ | setStop _ _ | setAlt _ _ => exact .refl arena

theorem refusal_ne_endless (answers : ∀ id child, arena.isAtOrAbove? child id ≠ none)
    (other : NodeId) : mutation.refusal arena ≠ .endless other := by
  cases mutation with
  | addChild id child =>
    rcases guard : arena.isAtOrAbove? child id with - | _ | _
    · exact absurd guard (answers id child)
    · simp only [refusal, guard]
      split
      · exact Arena.contextFault_ne_endless other
      · simp
    · simp [refusal, guard]
  | create parent invokingState rule => simp [refusal]
  | inherit id source | addLeaf id kind token | removeLastChild id =>
    exact Arena.contextFault_ne_endless other
  | setStart id token | setStop id token | setAlt id alt =>
    exact Arena.contextFault_ne_endless other

/-- What a refused edit leaves behind. -/
theorem traces_of_run (closed : arena.Closed) (refused : mutation.run arena = .error fault after) :
    after = arena ∨
      (∃ id kind token, mutation = .addLeaf id kind token ∧
        after = arena.push (.leaf ⟨kind, token, id⟩) ∧
          ∀ owner, ¬ after.Holds owner arena.nextId) ∨
      ∃ id child, mutation = .addChild id child ∧ ¬ arena.IsContext id ∧
        fault = arena.contextFault id ∧ after = arena.modify child (.withParent id) := by
  obtain ⟨notAdmitted, rfl, rfl⟩ := of_run_error refused
  cases mutation with
  | create parent invokingState rule => exact absurd trivial notAdmitted
  | addLeaf id kind token =>
    refine .inr (.inl ⟨id, kind, token, rfl, rfl, fun owner listed => ?_⟩)
    rw [Arena.Holds, (residue_remains arena _).children] at listed
    exact Nat.lt_irrefl _ (closed owner arena.nextId listed)
  | addChild id child =>
    by_cases linked : arena.isAtOrAbove? child id = some false ∧ child.index < arena.size
    · have noContext : ¬ arena.IsContext id := fun isContext =>
        notAdmitted ⟨linked.1, linked.2, isContext⟩
      refine .inr (.inr ⟨id, child, rfl, noContext, ?_, if_pos linked⟩)
      simp only [refusal, linked.1, if_pos linked.2]
    · exact .inl (if_neg linked)
  | inherit id source | removeLastChild id => exact .inl rfl
  | setStart id token | setStop id token | setAlt id alt => exact .inl rfl

end Mutation

namespace Reached

/-- If parent links run in no circle, a refused edit comes to its refusal, and leaves every node as
it was but for a parent link.  Child lists are the same, and so is what text, walk, bracketed form
and snapshot of a node show.  All that is left of the edit is a leaf in no child list, or the parent
link of a child whose new parent was not a context. -/
theorem remains_of_refused (reached : Reached arena) (acyclic : Acyclic arena.HasParent)
    (refused : mutation.run arena = .error fault after) (names : RuleNames) :
    (∀ id, fault ≠ .endless id) ∧
    (∀ id, id.index < arena.size →
      (after.node? id).map Node.contents = (arena.node? id).map Node.contents ∧
      after.span id = arena.span id ∧ after.children id = arena.children id ∧
      after.text? id = arena.text? id ∧ after.walk? id = arena.walk? id ∧
      after.bracketed? names id = arena.bracketed? names id ∧
      after.snapshot? names id = arena.snapshot? names id) ∧
    (after = arena ∨
      (∃ id kind token, mutation = .addLeaf id kind token ∧
        after = arena.push (.leaf ⟨kind, token, id⟩) ∧
          ∀ owner, ¬ after.Holds owner arena.nextId) ∨
      ∃ id child, mutation = .addChild id child ∧ ¬ arena.IsContext id ∧
        fault = arena.contextFault id ∧ after = arena.modify child (.withParent id)) := by
  have closed := reached.closed
  obtain ⟨-, faultEq, residue⟩ := Mutation.of_run_error refused
  have remains : arena.Remains after := by
    rw [residue]
    exact mutation.residue_remains arena
  have answers (id child : NodeId) : arena.isAtOrAbove? child id ≠ none := by
    have ends : arena.EndsAbove id := acyclic_iff_cycleFree.mp acyclic id
    obtain ⟨met, answer, -⟩ := Arena.exists_isAtOrAbove?_eq child ends
    rw [answer]
    exact Option.some_ne_none met
  refine ⟨?_, fun id inside => ?_, Mutation.traces_of_run closed refused⟩
  · rw [faultEq]
    exact Mutation.refusal_ne_endless answers
  · exact ⟨remains.contents id inside, remains.span inside, remains.children id,
      remains.query_eq closed inside Arena.isSome_text? Unfolds.text?_eq,
      remains.query_eq closed inside Arena.isSome_walk? Unfolds.walk?_eq,
      remains.query_eq closed inside Arena.isSome_bracketed? Unfolds.bracketed?_eq,
      remains.query_eq closed inside Arena.isSome_snapshot? Unfolds.snapshot?_eq⟩

/-- A context is linked to a token of the rule that lists it, which cannot list it too. -/
theorem genericInRule_remains :
    Reached Arena.genericInRule ∧ Acyclic Arena.genericInRule.HasParent ∧
      ∃ after, (Mutation.addChild ⟨3⟩ ⟨1⟩).run Arena.genericInRule =
          .error (.notContext ⟨3⟩ .terminal) after ∧
        after.parent? ⟨1⟩ = some ⟨3⟩ ∧ after.children ⟨0⟩ = [⟨1⟩, ⟨3⟩] ∧
        after.walk? ⟨0⟩ = Arena.genericInRule.walk? ⟨0⟩ := by
  have reached : Reached Arena.genericInRule := Reached.empty.leaveAll
    [.create none none (some 0), .create (some ⟨0⟩) none none, .addChild ⟨0⟩ ⟨1⟩,
      .addLeaf ⟨1⟩ .error (.ofType 5 0), .addLeaf ⟨0⟩ .terminal (.ofType 4 1)]
  have acyclic : Acyclic Arena.genericInRule.HasParent :=
    acyclic_iff_cycleFree.mpr Arena.genericInRule_forest.endsAbove
  have refused : (Mutation.addChild ⟨3⟩ ⟨1⟩).run Arena.genericInRule = .error _ _ := rfl
  obtain ⟨-, kept, -⟩ := reached.remains_of_refused acyclic refused fun _ => none
  obtain ⟨-, -, children, -, walk, -⟩ := kept ⟨0⟩ (by decide)
  exact ⟨reached, acyclic, _, refused, rfl, children, walk⟩

end Reached

end Recognizer.Tree
