import Recognizer.Proofs.Tree.Path
import Recognizer.Proofs.Tree.Revision
import Recognizer.Tree.Snapshot
import Recognizer.Tree.Text
import Recognizer.Tree.Walk

/-!
# When traversals end

The traversals of an arena carry a budget and give no answer when it runs out.  Here the budgets are
shown to be exact: a traversal downwards has an answer if and only if no child list below its node
leads back to a node that it was reached from (`EndsBelow`), and one upwards if and only if the
parent links above its node run in no circle (`EndsAbove`).  So an answer means that following the
links without any budget ends, and no answer means that it would not.
-/

namespace Recognizer.Tree

open Relation (ReflTransGen TransGen)

/-- All answers of a traversal of a list exist exactly if those for its elements do. -/
theorem isSome_mapM {α β : Type} (f : α → Option β) (xs : List α) :
    (xs.mapM f).isSome ↔ ∀ x ∈ xs, (f x).isSome := by
  induction xs with
  | nil => simp
  | cons x xs ih =>
    rw [List.forall_mem_cons, ← ih, List.mapM_cons]
    rcases f x with - | y
    · simp
    · rcases xs.mapM f with - | ys <;> simp

namespace Arena

/-- `child` is in the child list of `id`. -/
def Holds (arena : Arena) (id child : NodeId) : Prop :=
  child ∈ arena.children id

instance (arena : Arena) (id child : NodeId) : Decidable (arena.Holds id child) :=
  inferInstanceAs (Decidable (child ∈ arena.children id))

/-- `above` is the parent of `id`. -/
def HasParent (arena : Arena) (id above : NodeId) : Prop :=
  arena.parent? id = some above

/-- Following child lists from a node meets no node twice on one path. -/
def EndsBelow (arena : Arena) (id : NodeId) : Prop :=
  CycleFree arena.Holds id

/-- Following parent links from a node meets no node twice. -/
def EndsAbove (arena : Arena) (id : NodeId) : Prop :=
  CycleFree arena.HasParent id

/-- The children of a context; a path downwards goes on only at contexts. -/
def below? (arena : Arena) (id : NodeId) : Option (List NodeId) :=
  (arena.context? id).map Context.children

/-- The parent of a node, as the one node after it on the path upwards. -/
def above? (arena : Arena) (id : NodeId) : Option (List NodeId) :=
  (arena.parent? id).map fun above => [above]

variable {arena : Arena} {names : RuleNames} {budget : Nat} {id : NodeId}

theorem leads_below? : Leads arena.below? = arena.Holds := by
  funext id child
  unfold Leads below? Holds children
  rcases arena.context? id <;> simp

theorem leads_above? : Leads arena.above? = arena.HasParent := by
  funext id above
  unfold Leads above? HasParent
  rcases arena.parent? id <;> simp [eq_comm]

theorem endsWithin_below?_iff : EndsWithin arena.below? arena.size id ↔ arena.EndsBelow id := by
  unfold EndsBelow
  rw [← leads_below?]
  refine endsWithin_iff_cycleFree fun x goesOn => ?_
  have isContext : arena.IsContext x := by simpa [below?, IsContext] using goesOn
  exact isContext.lt_size

theorem endsWithin_above?_iff : EndsWithin arena.above? arena.size id ↔ arena.EndsAbove id := by
  unfold EndsAbove
  rw [← leads_above?]
  refine endsWithin_iff_cycleFree fun x goesOn => ?_
  rcases linked : arena.parent? x with - | above
  · simp [above?, linked] at goesOn
  · exact lt_size_of_parent? linked

/-- What is true of all nodes of a list that holds the children of each is true of all that is found
by following child lists from one of them. -/
theorem forall_reaches {property : NodeId → Prop} (ids : List NodeId) (start : id ∈ ids)
    (closed : ∀ x ∈ ids, ∀ child ∈ arena.children x, child ∈ ids) (all : ∀ x ∈ ids, property x) :
    ∀ x, ReflTransGen arena.Holds id x → property x := by
  intro x path
  refine all x ?_
  induction path with
  | refl => exact start
  | tail _ listed ih => exact closed _ ih _ listed

/-! ## Downwards -/

theorem below?_eq_none (noContext : arena.context? id = none) : arena.below? id = none := by
  rw [below?, noContext]
  rfl

theorem below?_eq_some {context : Context} (found : arena.context? id = some context) :
    arena.below? id = some context.children := by
  rw [below?, found]
  rfl

theorem endsWithin_below?_of_not_context (noContext : arena.context? id = none) :
    EndsWithin arena.below? budget id := by
  cases budget with
  | zero => exact below?_eq_none noContext
  | succ budget =>
    intro ys goesOn
    rw [below?_eq_none noContext] at goesOn
    cases goesOn

theorem not_endsWithin_below?_zero {context : Context} (found : arena.context? id = some context) :
    ¬ EndsWithin arena.below? 0 id := by
  simp [EndsWithin, below?_eq_some found]

theorem endsWithin_below?_succ {context : Context} (found : arena.context? id = some context) :
    EndsWithin arena.below? (budget + 1) id ↔
      ∀ child ∈ context.children, EndsWithin arena.below? budget child := by
  simp [EndsWithin, below?_eq_some found]

theorem isSome_labelsWithin :
    (arena.labelsWithin names budget id).isSome ↔ EndsWithin arena.below? budget id := by
  induction budget generalizing id with
  | zero =>
    unfold labelsWithin
    rcases found : arena.context? id with - | context
    · simp [endsWithin_below?_of_not_context found]
    · simp [not_endsWithin_below?_zero found]
  | succ budget ih =>
    unfold labelsWithin
    rcases found : arena.context? id with - | context
    · simp [endsWithin_below?_of_not_context found]
    · simp [endsWithin_below?_succ found, isSome_mapM, ih]

theorem isSome_snapshotWithin :
    (arena.snapshotWithin names budget id).isSome ↔ EndsWithin arena.below? budget id := by
  induction budget generalizing id with
  | zero =>
    unfold snapshotWithin
    rcases found : arena.node? id with - | ⟨l⟩ | ⟨c⟩
    · simp [endsWithin_below?_of_not_context (context?_of_missing found)]
    · simp [endsWithin_below?_of_not_context (context?_of_leaf found)]
    · simp [not_endsWithin_below?_zero (context?_eq_some_iff.mpr found)]
  | succ budget ih =>
    unfold snapshotWithin
    rcases found : arena.node? id with - | ⟨l⟩ | ⟨c⟩
    · simp [endsWithin_below?_of_not_context (context?_of_missing found)]
    · simp [endsWithin_below?_of_not_context (context?_of_leaf found)]
    · simp [endsWithin_below?_succ (context?_eq_some_iff.mpr found), isSome_mapM, ih]

/-- The pending nodes are independent of each other: the text exists if all of them end. -/
theorem isSome_collectText (tasks : List (Nat × NodeId)) (out : String) :
    (arena.collectText tasks out).isSome ↔
      ∀ task ∈ tasks, EndsWithin arena.below? task.1 task.2 := by
  fun_induction collectText arena tasks out with
  | case1 out => simp
  | case2 budget id pending out missing ih =>
    rw [ih, List.forall_mem_cons]
    simp [endsWithin_below?_of_not_context (context?_of_missing missing)]
  | case3 budget id pending out leaf found ih =>
    rw [ih, List.forall_mem_cons]
    simp [endsWithin_below?_of_not_context (context?_of_leaf found)]
  | case4 id pending out context found =>
    rw [List.forall_mem_cons]
    simp [not_endsWithin_below?_zero (context?_eq_some_iff.mpr found)]
  | case5 id pending out context found budget ih =>
    rw [ih, List.forall_mem_append, List.forall_mem_map, List.forall_mem_cons,
      endsWithin_below?_succ (context?_eq_some_iff.mpr found)]

/-- A task of a walk ends. -/
def TaskEnds (arena : Arena) : Task → Prop
  | .visit budget id => EndsWithin arena.below? budget id
  | .leave _ => True

theorem isSome_walkTasks (tasks : List Task) (out : Array Visit) :
    (arena.walkTasks tasks out).isSome ↔ ∀ task ∈ tasks, arena.TaskEnds task := by
  fun_induction walkTasks arena tasks out with
  | case1 out => simp
  | case2 id pending out ih =>
    rw [ih, List.forall_mem_cons]
    exact (and_iff_right trivial).symm
  | case3 budget id pending out missing ih =>
    rw [ih, List.forall_mem_cons]
    simp [TaskEnds, endsWithin_below?_of_not_context (context?_of_missing missing)]
  | case4 budget id pending out leaf found ih =>
    rw [ih, List.forall_mem_cons]
    simp [TaskEnds, endsWithin_below?_of_not_context (context?_of_leaf found)]
  | case5 id pending out context found =>
    rw [List.forall_mem_cons]
    simp [TaskEnds, not_endsWithin_below?_zero (context?_eq_some_iff.mpr found)]
  | case6 id pending out context found budget ih =>
    rw [ih, List.forall_mem_append, List.forall_mem_map, List.forall_mem_cons, List.forall_mem_cons]
    simp [TaskEnds, endsWithin_below?_succ (context?_eq_some_iff.mpr found)]

theorem isSome_labels? : (arena.labels? names id).isSome ↔ arena.EndsBelow id :=
  isSome_labelsWithin.trans endsWithin_below?_iff

theorem isSome_bracketed? : (arena.bracketed? names id).isSome ↔ arena.EndsBelow id := by
  rw [bracketed?, Option.isSome_map, isSome_labels?]

theorem isSome_snapshot? : (arena.snapshot? names id).isSome ↔ arena.EndsBelow id :=
  isSome_snapshotWithin.trans endsWithin_below?_iff

theorem isSome_text? : (arena.text? id).isSome ↔ arena.EndsBelow id := by
  rw [text?, isSome_collectText, List.forall_mem_singleton]
  exact endsWithin_below?_iff

theorem isSome_walk? : (arena.walk? id).isSome ↔ arena.EndsBelow id := by
  rw [walk?, isSome_walkTasks, List.forall_mem_singleton]
  exact endsWithin_below?_iff

/-! ## Upwards -/

theorem isSome_follow (next : NodeId → Option NodeId) :
    (follow next (budget + 1) id).isSome ↔
      EndsWithin (fun id => (next id).map fun after => [after]) budget id := by
  induction budget generalizing id with
  | zero =>
    unfold follow EndsWithin
    rcases next id <;> simp [follow]
  | succ budget ih =>
    unfold follow EndsWithin
    rcases next id with - | after
    · simp
    · simp [ih]

theorem isSome_lineage? : (arena.lineage? id).isSome ↔ arena.EndsAbove id :=
  (isSome_follow arena.parent?).trans endsWithin_above?_iff

theorem isSome_depth? : (arena.depth? id).isSome ↔ arena.EndsAbove id := by
  rw [depth?, Option.isSome_map, isSome_lineage?]

/-- A node is reached from another by parent links if it is that node, or from its parent. -/
theorem reaches_iff {target : NodeId} :
    ReflTransGen arena.HasParent id target ↔
      id = target ∨ ∃ above, arena.parent? id = some above ∧
        ReflTransGen arena.HasParent above target :=
  Relation.ReflTransGen.cases_head_iff

/-- An answer of the search upwards is right, whatever budget it was found with. -/
theorem meets_eq_true_iff {target : NodeId} {met : Bool}
    (answer : arena.meets target budget id = some met) :
    met = true ↔ ReflTransGen arena.HasParent id target := by
  induction budget generalizing id with
  | zero => cases answer
  | succ budget ih =>
    unfold meets at answer
    rw [reaches_iff]
    by_cases same : id = target
    · rw [if_pos same] at answer
      cases answer
      exact ⟨fun _ => .inl same, fun _ => rfl⟩
    · rw [if_neg same] at answer
      rcases linked : arena.parent? id with - | above
      · rw [linked] at answer
        cases answer
        simp [same]
      · rw [linked] at answer
        simp [same, ih answer]

theorem isSome_meets {target : NodeId} (ends : EndsWithin arena.above? budget id) :
    (arena.meets target (budget + 1) id).isSome := by
  induction budget generalizing id with
  | zero =>
    have top : arena.parent? id = none := Option.map_eq_none_iff.mp ends
    unfold meets
    rw [top]
    split <;> rfl
  | succ budget ih =>
    unfold meets
    split
    · rfl
    · rcases linked : arena.parent? id with - | above
      · rfl
      · have goesOn : arena.above? id = some [above] := by rw [above?, linked]; rfl
        exact ih (ends [above] goesOn above (List.mem_singleton_self above))

/-- Where parent links end, the search upwards has an answer. -/
theorem exists_isAtOrAbove?_eq (target : NodeId) (ends : arena.EndsAbove id) :
    ∃ met, arena.isAtOrAbove? target id = some met ∧
      (met = true ↔ ReflTransGen arena.HasParent id target) := by
  have found : (arena.isAtOrAbove? target id).isSome :=
    isSome_meets (endsWithin_above?_iff.mpr ends)
  obtain ⟨met, answer⟩ := Option.isSome_iff_exists.mp found
  exact ⟨met, answer, meets_eq_true_iff answer⟩

end Arena

end Recognizer.Tree
