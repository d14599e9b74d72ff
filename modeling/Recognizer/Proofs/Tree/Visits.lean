import Mathlib.Logic.Relation
import Recognizer.Proofs.Tree.Forest

/-!
# What a walk reports

`Visits` is the walk by recursion: what is reported of a context stands around what is reported of
its children.  The walk with its stack of pending tasks reports the same (`walkTasks_of_visits`,
for any tasks that are left behind), and does so wherever the recursion ends.

Two things are read off the recursion.  Its reports are nested (`Visits.nested`): each exit is that
of the innermost context or rule that is open.  And it visits the existing nodes at and below its
node, each of them once if no node stands at two places of child lists (`Visits.nodup_visited`).
-/

namespace Recognizer.Tree

open Relation (ReflTransGen TransGen)

variable {arena : Arena} {id child : NodeId} {ids : List NodeId} {reports : List Visit}
  {budget : Nat}

/-! ## Walking by recursion -/

/-- The reports of the nodes, one node after the other. A context is reported before and after its
children, and by its rule if it has one; a node that does not exist is passed over. -/
inductive Visits (arena : Arena) : List NodeId → List Visit → Prop
  | nil : Visits arena [] []
  | missing {id : NodeId} {ids : List NodeId} {reports : List Visit}
      (absent : arena.node? id = none) (rest : Visits arena ids reports) :
      Visits arena (id :: ids) reports
  | leaf {id : NodeId} {leaf : Leaf} {ids : List NodeId} {reports : List Visit}
      (found : arena.node? id = some (.leaf leaf)) (rest : Visits arena ids reports) :
      Visits arena (id :: ids) (.ofLeaf id leaf.kind :: reports)
  | context {id : NodeId} {context : Context} {inner : List Visit} {ids : List NodeId}
      {reports : List Visit} (found : arena.node? id = some (.context context))
      (below : Visits arena context.children inner) (rest : Visits arena ids reports) :
      Visits arena (id :: ids)
        (.enterEvery id :: context.rule.toList.map (.enter id) ++ inner ++
          context.rule.toList.map (.exit id) ++ .exitEvery id :: reports)

theorem Visits.unique {others : List Visit} (visits : Visits arena ids reports)
    (visitsToo : Visits arena ids others) : reports = others := by
  induction visits generalizing others with
  | nil =>
    cases visitsToo
    rfl
  | missing absent _ ih =>
    cases visitsToo with
    | missing _ rest => exact ih rest
    | leaf found _ => cases absent.symm.trans found
    | context found _ _ => cases absent.symm.trans found
  | leaf found _ ih =>
    cases visitsToo with
    | missing absent _ => cases absent.symm.trans found
    | leaf foundToo rest =>
      cases found.symm.trans foundToo
      rw [ih rest]
    | context foundToo _ _ => cases found.symm.trans foundToo
  | context found _ _ ihBelow ihRest =>
    cases visitsToo with
    | missing absent _ => cases absent.symm.trans found
    | leaf foundToo _ => cases found.symm.trans foundToo
    | context foundToo below rest =>
      cases found.symm.trans foundToo
      rw [ihBelow below, ihRest rest]

/-- Induction down the child lists and along the list of nodes, where child lists end. -/
theorem endsWithin_induction {motive : List NodeId → Prop} (nil : motive [])
    (single : ∀ {id ids}, arena.context? id = none → motive ids → motive (id :: ids))
    (context : ∀ {id ids context}, arena.node? id = some (.context context) →
      motive context.children → motive ids → motive (id :: ids))
    (ends : ∀ id ∈ ids, EndsWithin arena.below? budget id) : motive ids := by
  induction budget generalizing ids with
  | zero =>
    induction ids with
    | nil => exact nil
    | cons id ids ih =>
      obtain ⟨endsHere, endsRest⟩ := List.forall_mem_cons.mp ends
      rcases found : arena.context? id with - | c
      · exact single found (ih endsRest)
      · exact absurd endsHere (Arena.not_endsWithin_below?_zero found)
  | succ budget ihBudget =>
    induction ids with
    | nil => exact nil
    | cons id ids ih =>
      obtain ⟨endsHere, endsRest⟩ := List.forall_mem_cons.mp ends
      rcases found : arena.context? id with - | c
      · exact single found (ih endsRest)
      · have below := ihBudget ((Arena.endsWithin_below?_succ found).mp endsHere)
        exact context (Arena.context?_eq_some_iff.mp found) below (ih endsRest)

/-- Where the child lists end, so does the recursion. -/
theorem exists_visits (ends : ∀ id ∈ ids, EndsWithin arena.below? budget id) :
    ∃ reports, Visits arena ids reports := by
  refine endsWithin_induction (motive := fun ids => ∃ reports, Visits arena ids reports)
    ⟨[], .nil⟩ ?_ ?_ ends
  · rintro id ids noContext ⟨reports, rest⟩
    rcases found : arena.node? id with - | ⟨l⟩ | ⟨c⟩
    · exact ⟨_, .missing found rest⟩
    · exact ⟨_, .leaf found rest⟩
    · cases noContext.symm.trans (Arena.context?_eq_some_iff.mpr found)
  · rintro id ids context found ⟨inner, below⟩ ⟨reports, rest⟩
    exact ⟨_, .context found below rest⟩

/-! ## Walking with a stack -/

namespace Arena

theorem walkTasks_of_missing (absent : arena.node? id = none) (pending : List Task)
    (out : Array Visit) :
    arena.walkTasks (.visit budget id :: pending) out = arena.walkTasks pending out := by
  rw [walkTasks]
  split <;> simp_all

theorem walkTasks_of_leaf {leaf : Leaf} (found : arena.node? id = some (.leaf leaf))
    (pending : List Task) (out : Array Visit) :
    arena.walkTasks (.visit budget id :: pending) out =
      arena.walkTasks pending (out.push (.ofLeaf id leaf.kind)) := by
  rw [walkTasks]
  split <;> simp_all

theorem walkTasks_of_context {context : Context}
    (found : arena.node? id = some (.context context)) (pending : List Task) (out : Array Visit) :
    arena.walkTasks (.visit (budget + 1) id :: pending) out =
      arena.walkTasks (context.children.map (.visit budget) ++ .leave id :: pending)
        (out.push (.enterEvery id) ++ context.rule.toList.map (Visit.enter id)) := by
  have rule : arena.rule? id = context.rule := by
    rw [rule?, context?_eq_some_iff.mpr found]
    rfl
  rw [walkTasks]
  split <;> simp_all [enterRule]

theorem walkTasks_leave {context : Context} (found : arena.node? id = some (.context context))
    (pending : List Task) (out : Array Visit) :
    arena.walkTasks (.leave id :: pending) out =
      arena.walkTasks pending
        ((out ++ context.rule.toList.map (Visit.exit id)).push (.exitEvery id)) := by
  have rule : arena.rule? id = context.rule := by
    rw [rule?, context?_eq_some_iff.mpr found]
    rfl
  rw [walkTasks, exitRule, rule]
  rfl

/-- The tasks to visit some nodes report what the recursion does, and leave the other tasks. -/
theorem walkTasks_of_visits (visits : Visits arena ids reports)
    (ends : ∀ id ∈ ids, EndsWithin arena.below? budget id) (pending : List Task)
    (out : Array Visit) :
    arena.walkTasks (ids.map (.visit budget) ++ pending) out =
      arena.walkTasks pending (out ++ reports) := by
  induction visits generalizing budget pending out with
  | nil => simp
  | missing absent rest ih =>
    obtain ⟨-, endsRest⟩ := List.forall_mem_cons.mp ends
    rw [List.map_cons, List.cons_append, walkTasks_of_missing absent, ih endsRest]
  | leaf found rest ih =>
    obtain ⟨-, endsRest⟩ := List.forall_mem_cons.mp ends
    rw [List.map_cons, List.cons_append, walkTasks_of_leaf found, ih endsRest]
    simp
  | @context id context inner ids reports found below rest ihBelow ihRest =>
    obtain ⟨endsHere, endsRest⟩ := List.forall_mem_cons.mp ends
    have isContext := context?_eq_some_iff.mpr found
    rcases budget with - | budget
    · exact absurd endsHere (not_endsWithin_below?_zero isContext)
    · have endsBelow := (endsWithin_below?_succ isContext).mp endsHere
      rw [List.map_cons, List.cons_append, walkTasks_of_context found, ihBelow endsBelow,
        walkTasks_leave found, ihRest endsRest]
      refine congrArg (arena.walkTasks pending) (Array.toList_inj.mp ?_)
      simp

end Arena

/-! ## Nesting -/

/-- What is open after a report, innermost first, if the report is in place: only the innermost
context or rule can be left. -/
def Visit.nest (stack : List Visit) : Visit → Option (List Visit)
  | .terminal _ | .error _ => some stack
  | .enterEvery id => some (.enterEvery id :: stack)
  | .enter id rule => some (.enter id rule :: stack)
  | .exit id rule => if stack.head? = some (.enter id rule) then some stack.tail else none
  | .exitEvery id => if stack.head? = some (.enterEvery id) then some stack.tail else none

/-- The reports of some nodes leave open what was open before. -/
theorem Visits.nested (visits : Visits arena ids reports) (stack : List Visit) :
    reports.foldlM Visit.nest stack = some stack := by
  induction visits generalizing stack with
  | nil => rfl
  | missing _ _ ih => exact ih stack
  | @leaf id leaf _ _ _ _ ih =>
    have kept : Visit.nest stack (.ofLeaf id leaf.kind) = some stack := by
      rcases leaf.kind <;> rfl
    rw [List.foldlM_cons, kept]
    exact ih stack
  | @context id context inner _ _ _ _ _ ihBelow ihRest =>
    rcases rule : context.rule with - | rule
    · simp [Visit.nest, List.foldlM_append, ihBelow, ihRest]
    · simp [Visit.nest, List.foldlM_append, ihBelow, ihRest]

/-! ## Visited nodes -/

/-- The node that a report is the first one of. -/
def Visit.visited? : Visit → Option NodeId
  | .terminal id | .error id | .enterEvery id => some id
  | .enter _ _ | .exit _ _ | .exitEvery _ => none

/-- The nodes that are visited, in order. -/
def visited (reports : List Visit) : List NodeId :=
  reports.filterMap Visit.visited?

theorem visited_leaf (id : NodeId) (kind : LeafKind) (reports : List Visit) :
    visited (.ofLeaf id kind :: reports) = id :: visited reports := by
  cases kind <;> rfl

theorem visited_context (id : NodeId) (context : Context) (inner reports : List Visit) :
    visited (.enterEvery id :: context.rule.toList.map (.enter id) ++ inner ++
      context.rule.toList.map (.exit id) ++ .exitEvery id :: reports) =
      id :: (visited inner ++ visited reports) := by
  rcases context.rule with - | rule <;>
    simp [visited, List.filterMap_cons, Visit.visited?]

theorem Arena.reaches_of_childless (childless : arena.children id = []) {x : NodeId} :
    ReflTransGen arena.Holds id x ↔ id = x := by
  rw [Relation.ReflTransGen.cases_head_iff, or_iff_left_iff_imp]
  rintro ⟨child, listed, -⟩
  rw [Holds, childless] at listed
  cases listed

/-- Exactly the existing nodes at and below some nodes are visited. -/
theorem Visits.mem_visited_iff (visits : Visits arena ids reports) {x : NodeId} :
    x ∈ visited reports ↔
      (∃ id ∈ ids, ReflTransGen arena.Holds id x) ∧ x.index < arena.size := by
  induction visits with
  | nil => simp [visited]
  | @missing id ids reports absent _ ih =>
    have childless : arena.children id = [] := by rw [Arena.children_eq, absent]; rfl
    simp only [List.mem_cons, exists_eq_or_imp, Arena.reaches_of_childless childless]
    rw [ih, or_and_right]
    refine (or_iff_right ?_).symm
    rintro ⟨rfl, inside⟩
    obtain ⟨node, found⟩ := Arena.exists_node?_of_lt_size inside
    cases absent.symm.trans found
  | @leaf id leaf ids reports found _ ih =>
    have childless : arena.children id = [] := Arena.children_of_node? found
    simp only [visited_leaf, List.mem_cons, exists_eq_or_imp,
      Arena.reaches_of_childless childless]
    rw [ih, or_and_right]
    refine or_congr_left ⟨?_, fun here => here.1.symm⟩
    rintro rfl
    exact ⟨rfl, Arena.lt_size_of_node? found⟩
  | @context id context inner ids reports found _ _ ihBelow ihRest =>
    have children : arena.children id = context.children := Arena.children_of_node? found
    have here : ReflTransGen arena.Holds id x ↔
        x = id ∨ ∃ child ∈ context.children, ReflTransGen arena.Holds child x := by
      rw [Relation.ReflTransGen.cases_head_iff, eq_comm, ← children]
      rfl
    simp only [visited_context, List.mem_cons, List.mem_append, exists_eq_or_imp, here]
    rw [ihBelow, ihRest, or_and_right, or_and_right, or_assoc]
    refine or_congr_left ⟨?_, And.left⟩
    rintro rfl
    exact ⟨rfl, Arena.lt_size_of_node? found⟩

/-- No node stands at two places of child lists. -/
structure Arena.Unshared (arena : Arena) : Prop where
  owner : ∀ {x y child}, arena.Holds x child → arena.Holds y child → x = y
  nodup : ∀ id, (arena.children id).Nodup

theorem Arena.Forest.unshared (forest : arena.Forest) : arena.Unshared where
  owner := forest.owner_unique
  nodup := forest.nodup_children

/-- Of two nodes that lead to the same node, one leads to the other. -/
theorem Arena.Unshared.total (unshared : arena.Unshared) {x y z : NodeId}
    (path : ReflTransGen arena.Holds x z) (pathToo : ReflTransGen arena.Holds y z) :
    ReflTransGen arena.Holds x y ∨ ReflTransGen arena.Holds y x := by
  induction path with
  | refl => exact .inr pathToo
  | @tail b c path listed ih =>
    rcases Relation.ReflTransGen.cases_tail pathToo with rfl | ⟨owner, pathToOwner, listedToo⟩
    · exact .inl (path.tail listed)
    · rw [unshared.owner listedToo listed] at pathToOwner
      exact ih pathToOwner

/-- A node that leads to a child without being it leads to the owner of the child. -/
theorem Arena.Unshared.owner_of_child (unshared : arena.Unshared) {x : NodeId}
    (path : ReflTransGen arena.Holds x child) (other : child ≠ x)
    (listed : arena.Holds id child) : ReflTransGen arena.Holds x id := by
  rcases Relation.ReflTransGen.cases_tail path with same | ⟨owner, pathToOwner, listedToo⟩
  · exact absurd same other
  · rwa [unshared.owner listedToo listed] at pathToOwner

/-- Of several nodes none leads to a later one, or the other way round. -/
def Arena.Apart (arena : Arena) (ids : List NodeId) : Prop :=
  ids.Pairwise fun x y =>
    ¬ ReflTransGen arena.Holds x y ∧ ¬ ReflTransGen arena.Holds y x

/-- The children of a node that does not lead back to itself do not lead to each other. -/
theorem Arena.Unshared.apart_children (unshared : arena.Unshared)
    (free : CycleFree arena.Holds id) : arena.Apart (arena.children id) := by
  have noPath {x y : NodeId} (listed : arena.Holds id x) (listedToo : arena.Holds id y)
      (other : y ≠ x) : ¬ ReflTransGen arena.Holds x y := by
    intro path
    exact free id .refl (.head' listed (unshared.owner_of_child path other listedToo))
  refine List.Pairwise.imp_of_mem ?_ (unshared.nodup id)
  intro x y listed listedToo other
  exact ⟨noPath listed listedToo other.symm, noPath listedToo listed other⟩

/-- If no node stands at two places of child lists, no node is visited twice. -/
theorem Visits.nodup_visited (visits : Visits arena ids reports) (unshared : arena.Unshared)
    (free : ∀ id ∈ ids, CycleFree arena.Holds id) (apart : arena.Apart ids) :
    (visited reports).Nodup := by
  induction visits with
  | nil => exact List.nodup_nil
  | missing _ _ ih =>
    exact ih (List.forall_mem_cons.mp free).2 (List.pairwise_cons.mp apart).2
  | @leaf id leaf ids reports found rest ih =>
    obtain ⟨-, freeRest⟩ := List.forall_mem_cons.mp free
    obtain ⟨apartHere, apartRest⟩ := List.pairwise_cons.mp apart
    rw [visited_leaf]
    refine List.nodup_cons.mpr ⟨fun again => ?_, ih freeRest apartRest⟩
    obtain ⟨⟨other, member, path⟩, -⟩ := rest.mem_visited_iff.mp again
    exact (apartHere other member).2 path
  | @context id context inner ids reports found below rest ihBelow ihRest =>
    obtain ⟨freeHere, freeRest⟩ := List.forall_mem_cons.mp free
    obtain ⟨apartHere, apartRest⟩ := List.pairwise_cons.mp apart
    have children : arena.children id = context.children := Arena.children_of_node? found
    have listed {x : NodeId} (member : x ∈ context.children) : arena.Holds id x := by
      rw [Arena.Holds, children]
      exact member
    have nodupInner : (visited inner).Nodup := by
      refine ihBelow (fun x member => freeHere.of_step (listed member)) ?_
      rw [← children]
      exact unshared.apart_children freeHere
    rw [visited_context]
    refine List.nodup_cons.mpr ⟨fun again => ?_, ?_⟩
    · rcases List.mem_append.mp again with inside | outside
      · obtain ⟨⟨x, member, path⟩, -⟩ := below.mem_visited_iff.mp inside
        exact freeHere id .refl (.head' (listed member) path)
      · obtain ⟨⟨other, member, path⟩, -⟩ := rest.mem_visited_iff.mp outside
        exact (apartHere other member).2 path
    · refine List.nodup_append'.mpr ⟨nodupInner, ihRest freeRest apartRest, ?_⟩
      intro x inside outside
      obtain ⟨⟨y, member, path⟩, -⟩ := below.mem_visited_iff.mp inside
      obtain ⟨⟨other, memberToo, pathToo⟩, -⟩ := rest.mem_visited_iff.mp outside
      have pathFromHere := ReflTransGen.head (listed member) path
      rcases unshared.total pathFromHere pathToo with down | up
      · exact (apartHere other memberToo).1 down
      · exact (apartHere other memberToo).2 up

namespace Arena

/-- Where no child list leads back, the walk ends and reports exactly what the recursion does. So
its entries and exits are properly nested, it visits all existing nodes at and below its node and no
others, and none of them twice if no node stands at two places of child lists. -/
theorem walk_reports_visits (ends : arena.EndsBelow id) :
    ∃ reports, arena.walk? id = some reports.toArray ∧
      (∀ others, Visits arena [id] others ↔ others = reports) ∧
      reports.foldlM Visit.nest [] = some [] ∧
      (∀ x, x ∈ visited reports ↔ ReflTransGen arena.Holds id x ∧ x.index < arena.size) ∧
      (arena.Unshared → (visited reports).Nodup) := by
  have within : ∀ x ∈ [id], EndsWithin arena.below? arena.heightLimit x :=
    List.forall_mem_singleton.mpr (endsWithin_below?_iff.mpr ends)
  obtain ⟨reports, visits⟩ := exists_visits within
  have walked := walkTasks_of_visits visits within [] #[]
  refine ⟨reports, ?_, fun others => ?_, visits.nested [], fun x => ?_, fun unshared => ?_⟩
  · refine walked.trans ?_
    rw [walkTasks]
    simp
  · constructor
    · exact fun visitsToo => visitsToo.unique visits
    · rintro rfl
      exact visits
  · rw [visits.mem_visited_iff]
    simp
  · exact visits.nodup_visited unshared (List.forall_mem_singleton.mpr ends)
      (List.pairwise_singleton _ _)

/-- A rule with a skipped token in a generic context, and a matched token behind that. -/
def genericInRule : Arena :=
  let root := empty.push (.context (.fresh none none (some 0)))
  let generic := (root.push (.context (.fresh (some ⟨0⟩) none none))).append ⟨0⟩ root.nextId
  let skipped := (generic.push (.leaf ⟨.error, .ofType 5 0, ⟨1⟩⟩)).append ⟨1⟩ generic.nextId
  (skipped.push (.leaf ⟨.terminal, .ofType 4 1, ⟨0⟩⟩)).append ⟨0⟩ skipped.nextId

theorem genericInRule_forest : genericInRule.Forest := by
  have root : (empty.push (.context (.fresh none none (some 0)))).Forest :=
    Forest.empty.push rfl fun _ link => nomatch link
  exact ((root.push_append rfl rfl (by decide)).push_append rfl rfl (by decide)).push_append
    rfl rfl (by decide)

theorem walk_of_genericInRule :
    genericInRule.EndsBelow ⟨0⟩ ∧ genericInRule.Unshared ∧
      genericInRule.walk? ⟨0⟩ = some #[.enterEvery ⟨0⟩, .enter ⟨0⟩ 0, .enterEvery ⟨1⟩, .error ⟨2⟩,
        .exitEvery ⟨1⟩, .terminal ⟨3⟩, .exit ⟨0⟩ 0, .exitEvery ⟨0⟩] ∧
      [(⟨0⟩ : NodeId), ⟨1⟩, ⟨2⟩, ⟨3⟩].Nodup := by
  have ends := genericInRule_forest.endsBelow ⟨0⟩
  have unshared := genericInRule_forest.unshared
  obtain ⟨reports, walked, exactly, -, -, nodup⟩ := walk_reports_visits ends
  have skipped : Visits genericInRule [⟨2⟩] [.error ⟨2⟩] :=
    @Visits.leaf _ _ ⟨.error, .ofType 5 0, ⟨1⟩⟩ _ _ rfl .nil
  have matched : Visits genericInRule [⟨3⟩] [.terminal ⟨3⟩] :=
    @Visits.leaf _ _ ⟨.terminal, .ofType 4 1, ⟨0⟩⟩ _ _ rfl .nil
  have whole := (exactly _).mp (.context rfl (.context rfl skipped matched) .nil)
  rw [← whole] at walked nodup
  exact ⟨ends, unshared, walked, nodup unshared⟩

end Arena

end Recognizer.Tree
