import Mathlib.Data.List.Nodup
import Recognizer.Proofs.Tree.Revision

/-!
# Contexts of two arenas, matched by age

`Arena.contextIds` lists the contexts of an arena from the oldest to the youngest, and
`Counterparts` matches the contexts of two arenas that stand at the same place of these lists.
Their ids need not be the same, since leaves take up ids too.

`Alike` says that two arenas have equally many contexts and that matched ones say the same of
themselves and have matched parents.  It does not look at child lists and leaves, so that it is kept
by changes of these (`Alike.relisted`), and by adding or changing a context on both sides
(`Alike.push`, `Alike.modify`).
-/

namespace Recognizer.Tree

/-- Two contexts say the same of themselves, and their parents are matched. -/
structure Context.Agrees (matched : NodeId → NodeId → Prop) (left right : Context) : Prop where
  parent : Option.Rel matched left.parent right.parent
  invokingState : left.invokingState = right.invokingState
  rule : left.rule = right.rule
  alt : left.alt = right.alt
  start : left.start = right.start
  stop : left.stop = right.stop

theorem rel_mono {α β : Type} {matched matched' : α → β → Prop}
    (more : ∀ x y, matched x y → matched' x y) {x : Option α} {y : Option β}
    (related : Option.Rel matched x y) : Option.Rel matched' x y := by
  cases related with
  | some found => exact .some (more _ _ found)
  | none => exact .none

theorem rel_cases {α β : Type} {matched : α → β → Prop} {x : Option α} {y : Option β}
    (related : Option.Rel matched x y) :
    x = none ∧ y = none ∨ ∃ a b, x = some a ∧ y = some b ∧ matched a b := by
  cases related with
  | some found => exact .inr ⟨_, _, rfl, rfl, found⟩
  | none => exact .inl ⟨rfl, rfl⟩

theorem rel_isNone {α β : Type} {matched : α → β → Prop} {x : Option α} {y : Option β}
    (related : Option.Rel matched x y) : x.isNone = y.isNone := by
  cases related <;> rfl

namespace Arena

/-! ## Contexts by age -/

/-- The contexts of an arena in the order of their creation. -/
def contextIds (arena : Arena) : List NodeId :=
  ((List.range arena.size).map NodeId.mk).filter fun id => arena.IsContext id

section ContextIds

variable {arena after : Arena} {id : NodeId}

theorem mem_contextIds : id ∈ arena.contextIds ↔ arena.IsContext id := by
  unfold contextIds
  rw [List.mem_filter, decide_eq_true_iff, and_iff_right_iff_imp]
  exact fun isContext => List.mem_map.mpr ⟨_, List.mem_range.mpr isContext.lt_size, rfl⟩

theorem nodup_contextIds (arena : Arena) : arena.contextIds.Nodup := by
  have ids : ((List.range arena.size).map NodeId.mk).Nodup :=
    List.nodup_range.map fun _ _ same => congrArg NodeId.index same
  exact ids.filter _

/-- Ids beyond the end of the arena belong to no contexts. -/
theorem contextIds_eq_of_le {bound : Nat} (enough : arena.size ≤ bound) :
    arena.contextIds =
      ((List.range bound).map NodeId.mk).filter fun id => arena.IsContext id := by
  induction enough with
  | refl => rfl
  | @step bound enough ih =>
    have outside : ¬ arena.IsContext ⟨bound⟩ := fun isContext =>
      Nat.lt_irrefl _ (Nat.lt_of_lt_of_le isContext.lt_size enough)
    rw [List.range_succ, List.map_append, List.filter_append, ← ih, List.map_singleton,
      List.filter_singleton, decide_eq_false outside, cond_false, List.append_nil]

theorem Relisted.contextIds (relisted : arena.Relisted after) :
    after.contextIds = arena.contextIds := by
  have here := contextIds_eq_of_le (Nat.le_max_left arena.size after.size)
  have there := contextIds_eq_of_le (Nat.le_max_right arena.size after.size)
  rw [here, there]
  exact List.filter_congr fun id _ => decide_eq_decide.mpr relisted.isContext_iff

theorem contextIds_modify_onContext (arena : Arena) (target : NodeId)
    (change : Context → Context) :
    (arena.modify target (.onContext change)).contextIds = arena.contextIds := by
  unfold Arena.contextIds
  rw [size_modify]
  exact List.filter_congr fun id _ => decide_eq_decide.mpr isContext_modify_onContext

theorem contextIds_push (arena : Arena) (context : Context) :
    (arena.push (.context context)).contextIds = arena.contextIds ++ [arena.nextId] := by
  have old : ∀ id ∈ (List.range arena.size).map NodeId.mk,
      decide ((arena.push (.context context)).IsContext id) = decide (arena.IsContext id) := by
    intro id member
    obtain ⟨index, inside, rfl⟩ := List.mem_map.mp member
    have other : (⟨index⟩ : NodeId) ≠ arena.nextId := fun same =>
      Nat.ne_of_lt (List.mem_range.mp inside) (congrArg NodeId.index same)
    refine decide_eq_decide.mpr ?_
    rw [IsContext, context?_push, if_neg other]
    rfl
  have new := decide_eq_true (isContext_push_nextId arena context)
  unfold Arena.contextIds
  rw [size_push, List.range_succ, List.map_append, List.filter_append, List.filter_congr old,
    List.map_singleton]
  exact congrArg _ (List.filter_eq_self.mpr fun id only => List.mem_singleton.mp only ▸ new)

end ContextIds

/-! ## Matched contexts -/

/-- Two contexts are the k-th of their arenas, for the same k. -/
def Counterparts (left right : Arena) (x y : NodeId) : Prop :=
  ∃ k : Nat, left.contextIds[k]? = some x ∧ right.contextIds[k]? = some y

variable {left right left' right' : Arena} {x y x' y' : NodeId}

namespace Counterparts

theorem isContext_left (matched : Counterparts left right x y) : left.IsContext x := by
  obtain ⟨k, here, -⟩ := matched
  exact mem_contextIds.mp (List.mem_of_getElem? here)

theorem isContext_right (matched : Counterparts left right x y) : right.IsContext y := by
  obtain ⟨k, -, there⟩ := matched
  exact mem_contextIds.mp (List.mem_of_getElem? there)

theorem symm (matched : Counterparts left right x y) : Counterparts right left y x := by
  obtain ⟨k, here, there⟩ := matched
  exact ⟨k, there, here⟩

theorem right_unique (matched : Counterparts left right x y)
    (matched' : Counterparts left right x y') : y = y' := by
  obtain ⟨k, here, there⟩ := matched
  obtain ⟨k', here', there'⟩ := matched'
  obtain ⟨inside, -⟩ := List.getElem?_eq_some_iff.mp here
  have samePlace : k = k' :=
    (List.getElem?_inj inside left.nodup_contextIds).mp (here.trans here'.symm)
  subst samePlace
  exact Option.some.inj (there.symm.trans there')

/-- No context has two counterparts, and none is a counterpart of two. -/
theorem eq_iff_eq (matched : Counterparts left right x y)
    (matched' : Counterparts left right x' y') : x' = x ↔ y' = y := by
  constructor
  · rintro rfl
    exact matched'.right_unique matched
  · rintro rfl
    exact matched'.symm.right_unique matched.symm

/-- Contexts that are added to arenas with equally many contexts are counterparts. -/
theorem push_iff (count : left.contextIds.length = right.contextIds.length) (c d : Context) :
    Counterparts (left.push (.context c)) (right.push (.context d)) x y ↔
      Counterparts left right x y ∨ x = left.nextId ∧ y = right.nextId := by
  unfold Counterparts
  rw [contextIds_push, contextIds_push]
  constructor
  · rintro ⟨k, here, there⟩
    rw [List.getElem?_append] at here there
    by_cases old : k < left.contextIds.length
    · rw [if_pos old] at here
      rw [if_pos (count ▸ old)] at there
      exact .inl ⟨k, here, there⟩
    · rw [if_neg old] at here
      rw [if_neg (count ▸ old)] at there
      have new (a b : NodeId) (i : Nat) (found : [a][i]? = some b) : b = a :=
        List.mem_singleton.mp (List.mem_of_getElem? found)
      exact .inr ⟨new _ _ _ here, new _ _ _ there⟩
  · rintro (⟨k, here, there⟩ | ⟨rfl, rfl⟩)
    · obtain ⟨inside, -⟩ := List.getElem?_eq_some_iff.mp here
      refine ⟨k, ?_, ?_⟩
      · rw [List.getElem?_append_left inside, here]
      · rw [List.getElem?_append_left (count ▸ inside), there]
    · refine ⟨left.contextIds.length, List.getElem?_concat_length, ?_⟩
      rw [count]
      exact List.getElem?_concat_length

end Counterparts

theorem counterparts_congr (sameLeft : left'.contextIds = left.contextIds)
    (sameRight : right'.contextIds = right.contextIds) :
    Counterparts left' right' = Counterparts left right := by
  unfold Counterparts
  rw [sameLeft, sameRight]

end Arena

theorem Context.Agrees.mono {matched matched' : NodeId → NodeId → Prop} {left right : Context}
    (agrees : left.Agrees matched right) (more : ∀ x y, matched x y → matched' x y) :
    left.Agrees matched' right :=
  { agrees with parent := rel_mono more agrees.parent }

namespace Arena

/-! ## Arenas with the same contexts -/

/-- Two arenas have equally many contexts; matched ones say the same of themselves and have matched
parents. -/
structure Alike (left right : Arena) : Prop where
  count : left.contextIds.length = right.contextIds.length
  agree : ∀ {x y}, Counterparts left right x y → ∃ c d, left.context? x = some c ∧
    right.context? y = some d ∧ c.Agrees (Counterparts left right) d

variable {left right left' right' : Arena} {x y : NodeId}

namespace Alike

theorem empty : Alike .empty .empty where
  count := rfl
  agree matched := by
    have found := matched.isContext_left
    cases found

/-- Parents of matched contexts are matched. -/
theorem parent? (alike : left.Alike right) (matched : Counterparts left right x y) :
    Option.Rel (Counterparts left right) (left.parent? x) (right.parent? y) := by
  obtain ⟨c, d, here, there, agrees⟩ := alike.agree matched
  rw [parent?_of_context? here, parent?_of_context? there]
  exact agrees.parent

theorem relisted (alike : left.Alike right) (sameLeft : left.Relisted left')
    (sameRight : right.Relisted right') : left'.Alike right' where
  count := by
    rw [sameLeft.contextIds, sameRight.contextIds]
    exact alike.count
  agree := by
    rw [counterparts_congr sameLeft.contextIds sameRight.contextIds]
    intro x y matched
    obtain ⟨c, d, here, there, agrees⟩ := alike.agree matched
    obtain ⟨_, hereStill⟩ := sameLeft.context? here
    obtain ⟨_, thereStill⟩ := sameRight.context? there
    exact ⟨_, _, hereStill, thereStill, { agrees with }⟩

/-- A context is added on both sides. -/
theorem push (alike : left.Alike right) {c d : Context}
    (agrees : c.Agrees (Counterparts left right) d) :
    (left.push (.context c)).Alike (right.push (.context d)) where
  count := by
    rw [contextIds_push, contextIds_push, List.length_append, List.length_append, alike.count]
    rfl
  agree := by
    have more (x y : NodeId) (matched : Counterparts left right x y) :
        Counterparts (left.push (.context c)) (right.push (.context d)) x y :=
      (Counterparts.push_iff alike.count c d).mpr (.inl matched)
    intro x y matched
    rcases (Counterparts.push_iff alike.count c d).mp matched with old | ⟨rfl, rfl⟩
    · obtain ⟨c', d', here, there, agreesToo⟩ := alike.agree old
      refine ⟨c', d', ?_, ?_, agreesToo.mono more⟩
      · rw [context?_push, if_neg old.isContext_left.ne_nextId, here]
      · rw [context?_push, if_neg old.isContext_right.ne_nextId, there]
    · refine ⟨c, d, ?_, ?_, agrees.mono more⟩
      · rw [context?_push, if_pos rfl]
        rfl
      · rw [context?_push, if_pos rfl]
        rfl

/-- A context is added on both sides, and child lists change. -/
theorem push_relisted (alike : left.Alike right) {c d : Context}
    (agrees : c.Agrees (Counterparts left right) d)
    (sameLeft : (left.push (.context c)).Relisted left')
    (sameRight : (right.push (.context d)).Relisted right') :
    left'.Alike right' ∧ (∀ x y, Counterparts left right x y → Counterparts left' right' x y) ∧
      Counterparts left' right' left.nextId right.nextId := by
  refine ⟨(alike.push agrees).relisted sameLeft sameRight, ?_⟩
  rw [counterparts_congr sameLeft.contextIds sameRight.contextIds]
  constructor
  · intro x y matched
    exact (Counterparts.push_iff alike.count c d).mpr (.inl matched)
  · exact (Counterparts.push_iff alike.count c d).mpr (.inr ⟨rfl, rfl⟩)

/-- Matched contexts are changed in the same way. -/
theorem modify (alike : left.Alike right) (matched : Counterparts left right x y)
    {change : Context → Context}
    (keeps : ∀ c d : Context, c.Agrees (Counterparts left right) d →
      (change c).Agrees (Counterparts left right) (change d)) :
    (left.modify x (.onContext change)).Alike (right.modify y (.onContext change)) where
  count := by
    rw [contextIds_modify_onContext, contextIds_modify_onContext]
    exact alike.count
  agree := by
    rw [counterparts_congr (contextIds_modify_onContext ..) (contextIds_modify_onContext ..)]
    intro x' y' matched'
    obtain ⟨c, d, here, there, agrees⟩ := alike.agree matched'
    rw [context?_modify_onContext, context?_modify_onContext, here, there]
    by_cases target : x' = x
    · rw [if_pos target, if_pos ((matched.eq_iff_eq matched').mp target)]
      exact ⟨change c, change d, rfl, rfl, keeps c d agrees⟩
    · rw [if_neg target, if_neg (mt (matched.eq_iff_eq matched').mpr target)]
      exact ⟨c, d, rfl, rfl, agrees⟩

end Alike

end Arena

end Recognizer.Tree
