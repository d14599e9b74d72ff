import Recognizer.Proofs.Names.FirstInsertion
import Recognizer.Proofs.Tree.Refusal
import Recognizer.Proofs.Tree.Traversal
import Recognizer.Tree.Description

/-!
# Two tables of rule names

A rule is named by its position in a list, or by the handle of that number in a table which was
filled from the list.  Up to the first name that repeats, positions and handles are the same
(`NameTable.resolve?_ofList_of_nodup_take`); one repetition makes the table shorter than the list,
so that some rule is named otherwise (`NameTable.nodup_of_resolve?_ofList`).

A rendering reads the names of the contexts that it shows, and no others: those below its node for
the bracketed form and the snapshot, those above it for the stack of rules and the description.
Hence the two tables lead to the same renderings of a tree whose rules all come before a repetition,
and of every tree if no name repeats (`RuleNames.ofTable_eq_ofList_iff_nodup`).
-/

namespace Recognizer

open Relation (ReflTransGen)

/-! ## Positions and handles -/

namespace NameTable

variable {names : List String}

theorem names_ofList_of_nodup (distinct : names.Nodup) : (ofList names).names.toList = names := by
  induction names using List.reverseRecOn with
  | nil => rfl
  | append_singleton names last ih =>
    obtain ⟨distinctBefore, -, apart⟩ := List.nodup_append.mp distinct
    have isNew : last ∉ names := fun old => apart last old last (List.mem_singleton_self last) rfl
    rw [names_ofList_concat, if_neg isNew, ih distinctBefore]

theorem length_names_ofList_le (names : List String) :
    (ofList names).names.toList.length ≤ names.length := by
  induction names using List.reverseRecOn with
  | nil => exact Nat.le_refl 0
  | append_singleton names last ih =>
    rw [names_ofList_concat]
    split
    · exact Nat.le_trans ih (List.prefix_append _ _).length_le
    · rw [List.length_append, List.length_append]
      exact Nat.add_le_add_right ih _

theorem resolve?_eq (table : NameTable) (position : Nat) :
    table.resolve? ⟨position⟩ = table.names.toList[position]? :=
  (Array.getElem?_toList ..).symm

/-- If no name up to a position repeats, the name at that position has the position as handle. -/
theorem resolve?_ofList_of_nodup_take {position : Nat}
    (distinct : (names.take (position + 1)).Nodup) :
    (ofList names).resolve? ⟨position⟩ = names[position]? := by
  rw [resolve?_eq]
  rcases Nat.lt_or_ge position names.length with inside | outside
  · have kept := names_ofList_append (names.take (position + 1)) (names.drop (position + 1))
    rw [List.take_append_drop, names_ofList_of_nodup distinct] at kept
    have inTake : position < (names.take (position + 1)).length := by
      rw [List.length_take]
      omega
    rw [List.prefix_iff_getElem?.mp kept position inTake, List.getElem_take,
      List.getElem?_eq_getElem inside]
  · rw [List.take_of_length_le (Nat.le_succ_of_le outside)] at distinct
    rw [names_ofList_of_nodup distinct]

/-- If every position is the handle of its name, no name repeats. The positions need not be followed
beyond the end of the list. -/
theorem nodup_of_resolve?_ofList {bound : Nat} (covered : names.length ≤ bound)
    (same : ∀ position < bound, (ofList names).resolve? ⟨position⟩ = names[position]?) :
    names.Nodup := by
  have held : (ofList names).names.toList = names := by
    refine List.ext_getElem? fun position => ?_
    rcases Nat.lt_or_ge position bound with inside | outside
    · rw [← resolve?_eq, same position inside]
    · have short := length_names_ofList_le names
      rw [List.getElem?_eq_none (by omega), List.getElem?_eq_none (by omega)]
  rw [← held]
  exact nodup_names_ofList names

end NameTable

/-! ## Names that a rendering reads -/

namespace Tree.Arena

theorem mapM_congr {α β : Type} {f g : α → Option β} {xs : List α} (same : ∀ x ∈ xs, f x = g x) :
    xs.mapM f = xs.mapM g := by
  induction xs with
  | nil => rfl
  | cons x xs ih =>
    obtain ⟨here, rest⟩ := List.forall_mem_cons.mp same
    rw [List.mapM_cons, List.mapM_cons, here, ih rest]

/-- All contexts that `reached` leads to from a node have the same names with either table. -/
def NamedAlike (arena : Arena) (names otherNames : RuleNames) (reached : NodeId → NodeId → Prop)
    (id : NodeId) : Prop :=
  ∀ x, ReflTransGen reached id x → arena.ruleName names x = arena.ruleName otherNames x

variable {arena : Arena} {names otherNames : RuleNames} {reached : NodeId → NodeId → Prop}
  {id next : NodeId} {budget : Nat}

theorem NamedAlike.here (alike : arena.NamedAlike names otherNames reached id) :
    arena.ruleName names id = arena.ruleName otherNames id :=
  alike id .refl

theorem NamedAlike.step (alike : arena.NamedAlike names otherNames reached id)
    (edge : reached id next) : arena.NamedAlike names otherNames reached next :=
  fun x path => alike x (.head edge path)

theorem label_congr (same : arena.ruleName names id = arena.ruleName otherNames id) :
    arena.label names id = arena.label otherNames id := by
  unfold label
  rw [same]

/-- The bracketed form shows the names of the contexts at and below its node. -/
theorem labelsWithin_congr (alike : arena.NamedAlike names otherNames arena.Holds id) :
    arena.labelsWithin names budget id = arena.labelsWithin otherNames budget id := by
  induction budget generalizing id with
  | zero =>
    unfold labelsWithin visibleLabel
    rw [label_congr alike.here]
  | succ budget ih =>
    unfold labelsWithin visibleLabel
    rw [label_congr alike.here]
    rcases found : arena.context? id with - | context
    · rfl
    · have below : context.children.mapM (arena.labelsWithin names budget) =
          context.children.mapM (arena.labelsWithin otherNames budget) := by
        rw [← children_of_context? found]
        exact mapM_congr fun child listed => ih (alike.step listed)
      dsimp only
      rw [below]

theorem bracketed?_congr (alike : arena.NamedAlike names otherNames arena.Holds id) :
    arena.bracketed? names id = arena.bracketed? otherNames id :=
  congrArg (Option.map LabelTree.print) (labelsWithin_congr alike)

/-- The snapshot holds the names of the contexts at and below its node. -/
theorem snapshotWithin_congr (alike : arena.NamedAlike names otherNames arena.Holds id) :
    arena.snapshotWithin names budget id = arena.snapshotWithin otherNames budget id := by
  induction budget generalizing id with
  | zero => rfl
  | succ budget ih =>
    unfold snapshotWithin
    rcases found : arena.node? id with - | leaf | context
    · rfl
    · rfl
    · have below : context.children.mapM (arena.snapshotWithin names budget) =
          context.children.mapM (arena.snapshotWithin otherNames budget) := by
        refine mapM_congr fun child listed => ih (alike.step ?_)
        rwa [Holds, children_of_node? found]
      dsimp only
      rw [below, alike.here]

theorem snapshot?_congr (alike : arena.NamedAlike names otherNames arena.Holds id) :
    arena.snapshot? names id = arena.snapshot? otherNames id :=
  snapshotWithin_congr alike

/-- The contexts that enclose a node are reached by parent links. -/
theorem reaches_of_mem_follow {above : NodeId → Option NodeId}
    (upwards : ∀ x y, above x = some y → arena.HasParent x y) {ids : List NodeId}
    (found : follow above budget id = some ids) :
    ∀ x ∈ ids, ReflTransGen arena.HasParent id x := by
  induction budget generalizing id ids with
  | zero => cases found
  | succ budget ih =>
    unfold follow at found
    rcases linked : above id with - | next
    · rw [linked] at found
      cases found
      exact List.forall_mem_singleton.mpr .refl
    · rw [linked] at found
      obtain ⟨rest, follows, rfl⟩ := Option.map_eq_some_iff.mp found
      have edge := upwards id next linked
      exact List.forall_mem_cons.mpr ⟨.refl, fun x later => .head edge (ih follows x later)⟩

theorem hasParent_of_context? {x y : NodeId}
    (linked : (arena.context? x).bind Context.parent = some y) : arena.HasParent x y := by
  obtain ⟨context, found, parent⟩ := Option.bind_eq_some_iff.mp linked
  exact (parent?_of_context? found).trans parent

/-- The stack of rules names the contexts at and above its node. -/
theorem invocationStack?_congr (alike : arena.NamedAlike names otherNames arena.HasParent id) :
    arena.invocationStack? names id = arena.invocationStack? otherNames id := by
  unfold invocationStack? enclosing?
  rw [Option.map_map, Option.map_map]
  refine Option.map_congr fun ids found => List.map_congr_left fun x kept => ?_
  have reached := reaches_of_mem_follow (fun _ _ => hasParent_of_context?) found
  exact alike x (reached x (List.mem_of_mem_filter kept))

theorem description?_congr (alike : arena.NamedAlike names otherNames arena.HasParent id) :
    arena.description? names id = arena.description? otherNames id := by
  unfold description?
  rw [invocationStack?_congr alike]

end Tree.Arena

/-! ## The table filled from a list -/

namespace RuleNames

open Recognizer.Tree (Arena NodeId)

/-- No name repeats among those of the rules that `reached` leads to from a node and of the rules
before them. -/
def ComeBeforeRepetition (names : List String) (arena : Arena) (reached : NodeId → NodeId → Prop)
    (id : NodeId) : Prop :=
  ∀ x, ReflTransGen reached id x →
    ∀ rule ∈ arena.rule? x, (names.take (rule.toNat + 1)).Nodup

variable {names : List String} {arena : Arena} {reached : NodeId → NodeId → Prop} {id : NodeId}

theorem ofTable_eq_ofList {rule : RuleIndex} (distinct : (names.take (rule.toNat + 1)).Nodup) :
    ofTable (.ofList names) rule = ofList names rule :=
  NameTable.resolve?_ofList_of_nodup_take distinct

theorem ComeBeforeRepetition.namedAlike (early : ComeBeforeRepetition names arena reached id) :
    arena.NamedAlike (ofTable (.ofList names)) (ofList names) reached id := by
  intro x path
  unfold Arena.ruleName
  rcases called : arena.rule? x with - | rule
  · rfl
  · rw [Option.bind_some, Option.bind_some, ofTable_eq_ofList (early x path rule called)]

theorem comeBeforeRepetition_of_nodup (distinct : names.Nodup) (arena : Arena)
    (reached : NodeId → NodeId → Prop) (id : NodeId) :
    ComeBeforeRepetition names arena reached id :=
  fun _ _ _ _ => distinct.sublist (List.take_sublist _ _)

/-- Fewer than `2 ^ 32` names, as a list and as the table that is filled from it, name every rule
alike if and only if no name repeats, rules without a name included. Then all renderings of all
trees are equal, or are both without an end. If a name repeats, the rules up to the repetition are
still named alike, and so are the renderings of nodes that reach no other rules. -/
theorem ofTable_eq_ofList_iff_nodup (names : List String) (few : names.length < UInt32.size) :
    let table := ofTable (.ofList names)
    let list := ofList names
    ((∀ rule, table rule = list rule) ↔ names.Nodup) ∧
      (names.Nodup → ∀ (arena : Arena) (id : NodeId),
        arena.bracketed? table id = arena.bracketed? list id ∧
          arena.snapshot? table id = arena.snapshot? list id ∧
          arena.description? table id = arena.description? list id ∧
          arena.invocationStack? table id = arena.invocationStack? list id) ∧
      (∀ rule : RuleIndex, (names.take (rule.toNat + 1)).Nodup → table rule = list rule) ∧
      (∀ (arena : Arena) (id : NodeId), ComeBeforeRepetition names arena arena.Holds id →
        arena.bracketed? table id = arena.bracketed? list id ∧
          arena.snapshot? table id = arena.snapshot? list id) ∧
      ∀ (arena : Arena) (id : NodeId), ComeBeforeRepetition names arena arena.HasParent id →
        arena.description? table id = arena.description? list id ∧
          arena.invocationStack? table id = arena.invocationStack? list id := by
  intro table list
  have below (arena : Arena) (id : NodeId)
      (early : ComeBeforeRepetition names arena arena.Holds id) :
      arena.bracketed? table id = arena.bracketed? list id ∧
        arena.snapshot? table id = arena.snapshot? list id :=
    ⟨Arena.bracketed?_congr early.namedAlike, Arena.snapshot?_congr early.namedAlike⟩
  have above (arena : Arena) (id : NodeId)
      (early : ComeBeforeRepetition names arena arena.HasParent id) :
      arena.description? table id = arena.description? list id ∧
        arena.invocationStack? table id = arena.invocationStack? list id :=
    ⟨Arena.description?_congr early.namedAlike, Arena.invocationStack?_congr early.namedAlike⟩
  refine ⟨⟨fun same => ?_, fun distinct rule => ?_⟩, fun distinct arena id => ?_,
    fun rule => ofTable_eq_ofList, below, above⟩
  · refine NameTable.nodup_of_resolve?_ofList (Nat.le_of_lt few) fun position inside => ?_
    have here := same (UInt32.ofNat position)
    have back := UInt32.toNat_ofNat_of_lt' inside
    unfold table list ofTable ofList at here
    rwa [back] at here
  · exact ofTable_eq_ofList (distinct.sublist (List.take_sublist _ _))
  · obtain ⟨bracketed, snapshot⟩ :=
      below arena id (comeBeforeRepetition_of_nodup distinct arena _ id)
    obtain ⟨description, stack⟩ :=
      above arena id (comeBeforeRepetition_of_nodup distinct arena _ id)
    exact ⟨bracketed, snapshot, description, stack⟩

/-- A rule that calls the rule after it. -/
def termInExpr : Arena :=
  [Tree.Mutation.create none none (some 0), .create none none (some 1),
    .addChild ⟨0⟩ ⟨1⟩].foldl Tree.Mutation.leave .empty

/-- The second `"expr"` has no handle, so that the table names the rule behind it in its place. The
rules before it keep their names. -/
theorem names_of_repeatedRule :
    let names := ["expr", "term", "expr", "atom"]
    let distinct := ["expr", "term", "atom"]
    ofTable (.ofList names) 2 = some "atom" ∧ ofList names 2 = some "expr" ∧
      (¬ ∀ rule, ofTable (.ofList names) rule = ofList names rule) ∧
      termInExpr.bracketed? (ofTable (.ofList names)) ⟨0⟩ = some "(expr term)" ∧
      (∀ rule, ofTable (.ofList distinct) rule = ofList distinct rule) ∧
      termInExpr.description? (ofTable (.ofList distinct)) ⟨1⟩ =
        some "RuleContext[expr, term]\x7bstart=none, stop=none\x7d" := by
  intro names distinct
  obtain ⟨alike, -, -, shown, -⟩ := ofTable_eq_ofList_iff_nodup names (by decide)
  obtain ⟨alikeToo, shownToo, -⟩ := ofTable_eq_ofList_iff_nodup distinct (by decide)
  have apart : ∀ x ∈ [(⟨0⟩ : NodeId), ⟨1⟩], (termInExpr.rule? x).all fun rule =>
      decide (names.take (rule.toNat + 1)).Nodup := by
    decide +kernel
  have early : ComeBeforeRepetition names termInExpr termInExpr.Holds ⟨0⟩ := by
    refine Arena.forall_reaches [⟨0⟩, ⟨1⟩] (by decide) (by decide) fun x member rule called => ?_
    have here := apart x member
    rw [Option.mem_def.mp called] at here
    exact of_decide_eq_true here
  refine ⟨by decide +kernel, by decide +kernel, mt alike.mp (by decide +kernel), ?_,
    alikeToo.mpr (by decide +kernel), ?_⟩
  · rw [(shown termInExpr ⟨0⟩ early).1]
    decide +kernel
  · rw [(shownToo (by decide +kernel) termInExpr ⟨1⟩).2.2.1]
    decide +kernel

end RuleNames

end Recognizer
