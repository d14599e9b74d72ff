import Recognizer.Proofs.Text.Delimited
import Recognizer.Proofs.Tree.Outline
import Recognizer.Proofs.Tree.Refusal

/-!
# What a bracketed form says of a subtree

A bracketed form sets labels, spaces and parentheses side by side.  If every label is a word without
spaces and parentheses, a printed tree says where it ends (`LabelTree.readable_of_ofWords`), even
though one without children has no brackets around it.  So the labels can be read off the form.

`Labelled` relates nodes of an arena to their trees of labels, and `SameLabels` compares nodes of
two arenas label by label, without a tree in between.  Two bracketed forms are equal exactly if the
labels at and below the two nodes are (`bracketed_eq_iff_sameLabels`).
-/

namespace Recognizer.Tree

open Relation (ReflTransGen)
open Text (Delimits Readable Stops preceded)

/-! ## Trees of labels -/

/-- The character is neither a space nor a parenthesis. -/
def InLabel (c : Char) : Prop :=
  c ≠ ' ' ∧ c ≠ '(' ∧ c ≠ ')'

/-- The label is told from the spaces and parentheses around it. -/
structure IsWord (label : String) : Prop where
  nonempty : label ≠ ""
  inLabel : ∀ c ∈ label.toList, InLabel c

/-- A word does not begin with a parenthesis. -/
theorem IsWord.ne_opening {label : String} (word : IsWord label) (rest otherRest : List Char) :
    label.toList ++ rest ≠ '(' :: otherRest := by
  have nonempty : label.toList ≠ [] := mt String.toList_eq_nil_iff.mp word.nonempty
  obtain ⟨c, cs, isLabel⟩ := List.exists_cons_of_ne_nil nonempty
  have inLabel : InLabel c := word.inLabel c (isLabel ▸ List.mem_cons_self)
  intro same
  rw [isLabel] at same
  exact inLabel.2.1 (List.cons.inj same).1

namespace LabelTree

/-- All labels of the tree are words. -/
inductive OfWords : LabelTree → Prop
  | node {label : String} {children : List LabelTree} (word : IsWord label)
      (below : ∀ child ∈ children, OfWords child) : OfWords (.node label children)

/-- The printed form as characters. -/
def chars (tree : LabelTree) : List Char :=
  tree.print.toList

theorem toList_printAll (trees : List LabelTree) :
    (printAll trees).toList = preceded [' '] chars trees := by
  induction trees with
  | nil => rfl
  | cons tree trees ih =>
    rw [printAll, String.toList_append, String.toList_append, ih, Text.preceded_cons,
      List.append_assoc]
    rfl

theorem chars_leaf (label : String) : chars (.node label []) = label.toList := by
  rw [chars, print]

theorem chars_node (label : String) (first : LabelTree) (others : List LabelTree) :
    chars (.node label (first :: others)) =
      '(' :: (label.toList ++ (preceded [' '] chars (first :: others) ++ [')'])) := by
  rw [chars, print, ← toList_printAll]
  simp

theorem delimits : Delimits [' '] ')' (Stops InLabel) where
  goesOn := Text.stops_cons (by simp [InLabel])
  closes := Text.stops_cons (by simp [InLabel])
  differ _ _ same := absurd (List.cons.inj same).1 (by decide)

/-- A printed tree is told from others where its last word does not go on. -/
theorem readable_of_ofWords {tree : LabelTree} (ofWords : tree.OfWords) :
    Readable OfWords (Stops InLabel) chars tree := by
  induction ofWords with
  | @node label children word below ih =>
    intro other after otherAfter otherOfWords stops otherStops same
    rcases otherOfWords with @⟨otherLabel, otherChildren, otherWord, otherBelow⟩
    rcases children with - | ⟨first, rest⟩ <;>
      rcases otherChildren with - | ⟨otherFirst, otherRest⟩
    · rw [chars_leaf, chars_leaf] at same
      obtain ⟨labels, afters⟩ :=
        Text.append_inj_of_stops word.inLabel otherWord.inLabel stops otherStops same
      exact ⟨by rw [String.toList_inj.mp labels], afters⟩
    · rw [chars_leaf, chars_node] at same
      exact absurd same (word.ne_opening _ _)
    · rw [chars_node, chars_leaf] at same
      exact absurd same.symm (otherWord.ne_opening _ _)
    · rw [chars_node, chars_node] at same
      simp only [List.cons_append, List.append_assoc, List.nil_append, List.cons.injEq,
        true_and] at same
      -- The first child stands behind the label, with a space between them.
      obtain ⟨labels, sameBelow⟩ :=
        Text.append_inj_of_stops word.inLabel otherWord.inLabel (delimits.follows_preceded _ _)
          (delimits.follows_preceded _ _) same
      obtain ⟨trees, afters⟩ := Text.preceded_inj delimits ih otherBelow sameBelow
      exact ⟨by rw [String.toList_inj.mp labels, trees], afters⟩

/-- Trees of words are told apart by their printed forms. -/
theorem print_inj {tree other : LabelTree} (ofWords : tree.OfWords) (otherOfWords : other.OfWords)
    (same : tree.print = other.print) : tree = other := by
  have chars : tree.chars ++ [] = other.chars ++ [] := congrArg (String.toList · ++ []) same
  exact (readable_of_ofWords ofWords other [] [] otherOfWords Text.stops_nil Text.stops_nil chars).1

end LabelTree

/-! ## Labels in arenas -/

/-- The trees of labels of nodes. A node that is no context has nothing below it. -/
inductive Labelled (arena : Arena) (names : RuleNames) : List NodeId → List LabelTree → Prop
  | nil : Labelled arena names [] []
  | cons {id : NodeId} {ids : List NodeId} {below trees : List LabelTree}
      (inner : Labelled arena names (arena.children id) below)
      (others : Labelled arena names ids trees) :
      Labelled arena names (id :: ids) (.node (arena.visibleLabel names id) below :: trees)

/-- Nodes of two arenas have the same labels, one by one, and so have their children. -/
inductive SameLabels (arena other : Arena) (names otherNames : RuleNames) :
    List NodeId → List NodeId → Prop
  | nil : SameLabels arena other names otherNames [] []
  | cons {id otherId : NodeId} {ids otherIds : List NodeId}
      (label : arena.visibleLabel names id = other.visibleLabel otherNames otherId)
      (below : SameLabels arena other names otherNames (arena.children id) (other.children otherId))
      (others : SameLabels arena other names otherNames ids otherIds) :
      SameLabels arena other names otherNames (id :: ids) (otherId :: otherIds)

variable {arena other : Arena} {names otherNames : RuleNames} {id otherId : NodeId}
  {ids otherIds : List NodeId} {trees otherTrees : List LabelTree} {budget : Nat}

theorem Arena.children_of_no_context (noContext : arena.context? id = none) :
    arena.children id = [] := by
  rw [children, noContext]

theorem exists_labelled (names : RuleNames)
    (ends : ∀ id ∈ ids, EndsWithin arena.below? budget id) :
    ∃ trees, Labelled arena names ids trees := by
  refine endsWithin_induction (motive := fun ids => ∃ trees, Labelled arena names ids trees)
    ⟨[], .nil⟩ ?_ ?_ ends
  · rintro id ids noContext ⟨trees, others⟩
    refine ⟨.node _ [] :: trees, .cons ?_ others⟩
    rw [Arena.children_of_no_context noContext]
    exact .nil
  · rintro id ids context found ⟨below, inner⟩ ⟨trees, others⟩
    refine ⟨.node _ below :: trees, .cons ?_ others⟩
    rwa [Arena.children_of_node? found]

namespace Labelled

theorem labels (labelled : Labelled arena names ids trees)
    (ends : ∀ id ∈ ids, EndsWithin arena.below? budget id) :
    ids.mapM (arena.labelsWithin names budget) = some trees := by
  induction labelled generalizing budget with
  | nil => rfl
  | @cons id ids below trees inner _ ihInner ih =>
    obtain ⟨endsHere, endsRest⟩ := List.forall_mem_cons.mp ends
    have here : arena.labelsWithin names budget id =
        some (.node (arena.visibleLabel names id) below) := by
      rcases found : arena.context? id with - | context
      · rw [Arena.children_of_no_context found] at inner
        cases inner
        cases budget <;> rw [Arena.labelsWithin, found]
      · have children : arena.children id = context.children := by rw [Arena.children, found]
        rcases budget with - | budget
        · exact absurd endsHere (Arena.not_endsWithin_below?_zero found)
        · have endsBelow := (Arena.endsWithin_below?_succ found).mp endsHere
          rw [← children] at endsBelow
          rw [Arena.labelsWithin, found]
          dsimp only
          rw [← children, ihInner endsBelow, Option.map_some]
    rw [List.mapM_cons, here, ih endsRest]
    rfl

theorem bracketed?_eq {tree : LabelTree} (labelled : Labelled arena names [id] [tree])
    (ends : arena.EndsBelow id) : arena.bracketed? names id = some tree.print :=
  congrArg (Option.map LabelTree.print) (answer_of_mapM (labelled.labels ends.within))

/-- The labels of the tree are those of the nodes that are found by following child lists. -/
theorem ofWords (labelled : Labelled arena names ids trees)
    (words : ∀ id ∈ ids, ∀ x, ReflTransGen arena.Holds id x → IsWord (arena.visibleLabel names x)) :
    ∀ tree ∈ trees, tree.OfWords := by
  induction labelled with
  | nil => exact List.forall_mem_nil _
  | cons _ _ ihInner ih =>
    obtain ⟨here, rest⟩ := List.forall_mem_cons.mp words
    refine List.forall_mem_cons.mpr ⟨.node (here _ .refl) (ihInner ?_), ih rest⟩
    exact fun child listed x path => here x (.head listed path)

theorem exists_of_cons {label : String} {below : List LabelTree}
    (labelled : Labelled arena names ids (.node label below :: trees)) :
    ∃ id rest, ids = id :: rest ∧ label = arena.visibleLabel names id ∧
      Labelled arena names (arena.children id) below ∧ Labelled arena names rest trees := by
  cases labelled with
  | cons inner others => exact ⟨_, _, rfl, rfl, inner, others⟩

theorem sameLabels (labelled : Labelled arena names ids trees)
    (otherLabelled : Labelled other otherNames otherIds trees) :
    SameLabels arena other names otherNames ids otherIds := by
  induction labelled generalizing otherIds with
  | nil =>
    cases otherLabelled
    exact .nil
  | cons _ _ ihInner ih =>
    obtain ⟨otherId, rest, rfl, label, otherInner, otherOthers⟩ := otherLabelled.exists_of_cons
    exact .cons label (ihInner otherInner) (ih otherOthers)

end Labelled

theorem SameLabels.trees_eq (same : SameLabels arena other names otherNames ids otherIds)
    (labelled : Labelled arena names ids trees)
    (otherLabelled : Labelled other otherNames otherIds otherTrees) : trees = otherTrees := by
  induction same generalizing trees otherTrees with
  | nil =>
    cases labelled
    cases otherLabelled
    rfl
  | cons label _ _ ihBelow ih =>
    rcases labelled with - | ⟨inner, others⟩
    rcases otherLabelled with - | ⟨otherInner, otherOthers⟩
    rw [label, ihBelow inner otherInner, ih others otherOthers]

theorem Arena.EndsBelow.exists_labelled (ends : arena.EndsBelow id) (names : RuleNames) :
    ∃ tree, Labelled arena names [id] [tree] := by
  obtain ⟨trees, labelled⟩ := Tree.exists_labelled names ends.within
  cases labelled with
  | cons inner others =>
    cases others
    exact ⟨_, .cons inner .nil⟩

/-! ## Equal forms -/

/-- Two nodes of any two arenas, below which child lists end, have equal bracketed forms if and only
if they have the same labels, have equally many children, and so on with the children one by one.
It is assumed that all these labels, with whitespace made visible, are words without spaces and
parentheses. A context without children is not told from a leaf. -/
theorem bracketed_eq_iff_sameLabels (ends : arena.EndsBelow id)
    (otherEnds : other.EndsBelow otherId)
    (words : ∀ x, ReflTransGen arena.Holds id x → IsWord (arena.visibleLabel names x))
    (otherWords : ∀ x, ReflTransGen other.Holds otherId x →
      IsWord (other.visibleLabel otherNames x)) :
    ∃ form otherForm, arena.bracketed? names id = some form ∧
      other.bracketed? otherNames otherId = some otherForm ∧
      (form = otherForm ↔ SameLabels arena other names otherNames [id] [otherId]) := by
  obtain ⟨tree, labelled⟩ := ends.exists_labelled names
  obtain ⟨otherTree, otherLabelled⟩ := otherEnds.exists_labelled otherNames
  refine ⟨_, _, labelled.bracketed?_eq ends, otherLabelled.bracketed?_eq otherEnds, ?_, ?_⟩
  · intro same
    have ofWords : tree.OfWords :=
      List.forall_mem_singleton.mp (labelled.ofWords (List.forall_mem_singleton.mpr words))
    have otherOfWords : otherTree.OfWords :=
      List.forall_mem_singleton.mp
        (otherLabelled.ofWords (List.forall_mem_singleton.mpr otherWords))
    cases LabelTree.print_inj ofWords otherOfWords same
    exact labelled.sameLabels otherLabelled
  · intro same
    rw [List.singleton_inj.mp (same.trees_eq labelled otherLabelled)]

instance (c : Char) : Decidable (InLabel c) :=
  inferInstanceAs (Decidable (c ≠ ' ' ∧ c ≠ '(' ∧ c ≠ ')'))

instance (label : String) : Decidable (IsWord label) :=
  haveI : Decidable (∀ c ∈ label.toList, InLabel c) := List.decidableBAll InLabel label.toList
  decidable_of_iff (label ≠ "" ∧ ∀ c ∈ label.toList, InLabel c)
    ⟨fun both => ⟨both.1, both.2⟩, fun word => ⟨word.nonempty, word.inLabel⟩⟩

/-- A labelled alternative, below which stand a context without children and a token. -/
def contextAndToken : Arena :=
  [Mutation.create none none (some 0), .setAlt ⟨0⟩ 2, .create none none (some 1),
    .addChild ⟨0⟩ ⟨1⟩, .addLeaf ⟨0⟩ .terminal ⟨5, 0, some "x", 1, 0⟩].foldl Mutation.leave .empty

/-- A rule with two tokens, one of which is an error. -/
def twoTokens : Arena :=
  [Mutation.create none none (some 0), .addLeaf ⟨0⟩ .error ⟨7, 3, some "term", 1, 0⟩,
    .addLeaf ⟨0⟩ .terminal ⟨5, 4, some "x", 1, 5⟩].foldl Mutation.leave .empty

/-- The number of the alternative is part of the name of the other rule. -/
theorem sameLabels_of_twoTokens :
    let names := RuleNames.ofList ["expr", "term"]
    let otherNames := RuleNames.ofList ["expr:2"]
    contextAndToken.bracketed? names ⟨0⟩ = some "(expr:2 term x)" ∧
      twoTokens.bracketed? otherNames ⟨0⟩ = some "(expr:2 term x)" ∧
      SameLabels contextAndToken twoTokens names otherNames [⟨0⟩] [⟨0⟩] := by
  intro names otherNames
  have shown : contextAndToken.bracketed? names ⟨0⟩ = some "(expr:2 term x)" := by decide +kernel
  have otherShown : twoTokens.bracketed? otherNames ⟨0⟩ = some "(expr:2 term x)" := by
    decide +kernel
  have words : ∀ x, ReflTransGen contextAndToken.Holds ⟨0⟩ x →
      IsWord (contextAndToken.visibleLabel names x) :=
    Arena.forall_reaches [⟨0⟩, ⟨1⟩, ⟨2⟩] (by decide) (by decide) (by decide +kernel)
  have otherWords : ∀ x, ReflTransGen twoTokens.Holds ⟨0⟩ x →
      IsWord (twoTokens.visibleLabel otherNames x) :=
    Arena.forall_reaches [⟨0⟩, ⟨1⟩, ⟨2⟩] (by decide) (by decide) (by decide +kernel)
  obtain ⟨form, otherForm, found, otherFound, same⟩ :=
    bracketed_eq_iff_sameLabels (Arena.isSome_bracketed?.mp (Option.isSome_of_eq_some shown))
      (Arena.isSome_bracketed?.mp (Option.isSome_of_eq_some otherShown)) words otherWords
  have equal : form = otherForm := by
    rw [shown] at found
    rw [otherShown] at otherFound
    exact Option.some.inj (found.symm.trans otherFound)
  exact ⟨shown, otherShown, same.mp equal⟩

end Recognizer.Tree
