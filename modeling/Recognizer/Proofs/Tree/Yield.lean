import Recognizer.Proofs.Tree.Traversal

/-!
# What the leaves read

`Yields` relates nodes to the tokens of the leaves below them, in the order of the child lists.  It
can be restricted to subtrees that avoid some nodes, so that it survives changes that touch only
those (`Yields.transfer`).  The tokens are unique, and the text of a node is made of them.

`Spine` describes a tree along its rightmost branch: contexts each of which is the last child of the
next, with the tokens of the leaves to the left of the branch.
-/

namespace Recognizer.Tree

variable {arena after : Arena} {avoid avoidAfter : List NodeId} {ids others : List NodeId}
  {tokens : List Token} {id : NodeId}

/-! ## Tokens below nodes -/

/-- The leaves at and below the nodes have these tokens, from the first to the last, and no node on
the way is one of those to avoid. -/
inductive Yields (arena : Arena) (avoid : List NodeId) : List NodeId → List Token → Prop
  | nil : Yields arena avoid [] []
  | leaf {id : NodeId} {token : Token} {ids : List NodeId} {tokens : List Token}
      (outside : id ∉ avoid) (found : arena.token? id = some token)
      (rest : Yields arena avoid ids tokens) : Yields arena avoid (id :: ids) (token :: tokens)
  | context {id : NodeId} {inner : List Token} {ids : List NodeId} {tokens : List Token}
      (outside : id ∉ avoid) (isContext : arena.IsContext id)
      (below : Yields arena avoid (arena.children id) inner)
      (rest : Yields arena avoid ids tokens) : Yields arena avoid (id :: ids) (inner ++ tokens)

theorem Arena.exists_leaf_of_token? {token : Token} (found : arena.token? id = some token) :
    ∃ leaf, arena.node? id = some (.leaf leaf) ∧ leaf.token = token := by
  obtain ⟨node, here, isToken⟩ := Option.bind_eq_some_iff.mp found
  cases node with
  | leaf l => exact ⟨l, here, Option.some.inj isToken⟩
  | context c => cases isToken

theorem Arena.token?_of_isContext (isContext : arena.IsContext id) : arena.token? id = none := by
  obtain ⟨context, found⟩ := isContext_iff.mp isContext
  rw [token?, found]
  rfl

namespace Yields

theorem append (yields : Yields arena avoid ids tokens) {moreTokens : List Token}
    (more : Yields arena avoid others moreTokens) :
    Yields arena avoid (ids ++ others) (tokens ++ moreTokens) := by
  induction yields with
  | nil => exact more
  | leaf outside found _ ih => exact .leaf outside found ih
  | context outside isContext below _ _ ih =>
    rw [List.append_assoc]
    exact .context outside isContext below ih

theorem of_append (yields : Yields arena avoid (ids ++ others) tokens) :
    ∃ first second, tokens = first ++ second ∧ Yields arena avoid ids first ∧
      Yields arena avoid others second := by
  induction ids generalizing tokens with
  | nil => exact ⟨[], tokens, rfl, .nil, yields⟩
  | cons id ids ih =>
    cases yields with
    | leaf outside found rest =>
      obtain ⟨first, second, rfl, left, right⟩ := ih rest
      exact ⟨_ :: first, second, rfl, .leaf outside found left, right⟩
    | @context _ inner _ _ outside isContext below rest =>
      obtain ⟨first, second, rfl, left, right⟩ := ih rest
      refine ⟨inner ++ first, second, ?_, .context outside isContext below left, right⟩
      rw [List.append_assoc]

theorem of_children (outside : id ∉ avoid) (isContext : arena.IsContext id)
    (below : Yields arena avoid (arena.children id) tokens) :
    Yields arena avoid [id] tokens := by
  have whole := Yields.context outside isContext below .nil
  rwa [List.append_nil] at whole

theorem of_token (outside : id ∉ avoid) {token : Token} (found : arena.token? id = some token) :
    Yields arena avoid [id] [token] :=
  .leaf outside found .nil

theorem unique {moreTokens : List Token} (yields : Yields arena avoid ids tokens)
    (more : Yields arena avoid ids moreTokens) : tokens = moreTokens := by
  induction yields generalizing moreTokens with
  | nil =>
    cases more
    rfl
  | leaf outside found rest ih =>
    cases more with
    | leaf _ foundToo restToo =>
      have same := Option.some.inj (found.symm.trans foundToo)
      rw [same, ih restToo]
    | context _ isContext _ _ =>
      rw [Arena.token?_of_isContext isContext] at found
      cases found
  | context outside isContext below rest ihBelow ihRest =>
    cases more with
    | leaf _ found _ =>
      rw [Arena.token?_of_isContext isContext] at found
      cases found
    | context _ _ belowToo restToo => rw [ihBelow belowToo, ihRest restToo]

end Yields

theorem Arena.lt_size_of_token? {token : Token} (found : arena.token? id = some token) :
    id.index < arena.size := by
  obtain ⟨leaf, here, -⟩ := exists_leaf_of_token? found
  exact lt_size_of_node? here

/-- The nodes of an arena but for some are in another arena what they were, apart from their links
and spans. -/
def Arena.Untouched (arena after : Arena) (touched : List NodeId) : Prop :=
  ∀ id, id.index < arena.size → id ∉ touched → id.index < after.size ∧
    after.token? id = arena.token? id ∧ after.children id = arena.children id ∧
      (arena.IsContext id → after.IsContext id)

namespace Arena.Untouched

variable {touched moreTouched : List NodeId} {final : Arena}

theorem refl (arena : Arena) : arena.Untouched arena touched :=
  fun _ inside _ => ⟨inside, rfl, rfl, fun isContext => isContext⟩

theorem trans (untouched : arena.Untouched after touched) (later : after.Untouched final touched) :
    arena.Untouched final touched := by
  intro id inside outside
  obtain ⟨insideAfter, token, children, keeps⟩ := untouched id inside outside
  obtain ⟨insideFinal, tokenToo, childrenToo, keepsToo⟩ := later id insideAfter outside
  exact ⟨insideFinal, tokenToo.trans token, childrenToo.trans children,
    fun isContext => keepsToo (keeps isContext)⟩

theorem mono (untouched : arena.Untouched after touched) (sub : touched ⊆ moreTouched) :
    arena.Untouched after moreTouched :=
  fun id inside outside => untouched id inside fun member => outside (sub member)

theorem push (arena : Arena) (node : Node) : arena.Untouched (arena.push node) touched := by
  intro id inside _
  have old : id ≠ arena.nextId := fun new => Nat.lt_irrefl _ (new ▸ inside)
  refine ⟨?_, ?_, ?_, fun isContext => isContext.push node⟩
  · rw [size_push]
    exact Nat.lt_succ_of_lt inside
  · rw [token?_push, if_neg old]
  · rw [children_push, if_neg old]

theorem modify_onContext (arena : Arena) (target : NodeId) {change : Context → Context}
    (keeps : target ∉ touched → ∀ context, (change context).children = context.children) :
    arena.Untouched (arena.modify target (.onContext change)) touched := by
  intro id inside outside
  refine ⟨?_, token?_modify_onContext .., ?_, isContext_modify_onContext.mpr⟩
  · rw [size_modify]
    exact inside
  · by_cases here : id = target
    · subst here
      exact children_modify_onContext (keeps outside) id
    · rw [children_modify, if_neg here]

theorem append (arena : Arena) (child : NodeId) {target : NodeId} (listed : target ∈ touched) :
    arena.Untouched (arena.append target child) touched :=
  modify_onContext arena target fun outside => absurd listed outside

theorem dropLast (arena : Arena) {target : NodeId} (listed : target ∈ touched) :
    arena.Untouched (arena.dropLast target) touched :=
  modify_onContext arena target fun outside => absurd listed outside

end Arena.Untouched

/-- Subtrees that avoid what is touched yield what they did. -/
theorem Yields.transfer (yields : Yields arena avoid ids tokens)
    (untouched : arena.Untouched after avoid)
    (outside : ∀ id, id.index < arena.size → id ∉ avoid → id ∉ avoidAfter) :
    Yields after avoidAfter ids tokens := by
  induction yields with
  | nil => exact .nil
  | leaf out found _ ih =>
    have inside := Arena.lt_size_of_token? found
    obtain ⟨-, sameToken, -⟩ := untouched _ inside out
    exact .leaf (outside _ inside out) (sameToken.trans found) ih
  | context out isContext _ _ ihBelow ihRest =>
    obtain ⟨-, -, sameChildren, keeps⟩ := untouched _ isContext.lt_size out
    refine .context (outside _ isContext.lt_size out) (keeps isContext) ?_ ihRest
    rw [sameChildren]
    exact ihBelow

/-! ## The text of what is read -/

theorem Arena.collectText_of_leaf {leaf : Leaf} (found : arena.node? id = some (.leaf leaf))
    (budget : Nat) (pending : List (Nat × NodeId)) (out : String) :
    arena.collectText ((budget, id) :: pending) out =
      arena.collectText pending (out ++ leaf.token.displayText) := by
  rw [collectText]
  split <;> simp_all

theorem Arena.collectText_of_context {context : Context}
    (found : arena.node? id = some (.context context)) (budget : Nat)
    (pending : List (Nat × NodeId)) (out : String) :
    arena.collectText ((budget + 1, id) :: pending) out =
      arena.collectText (context.children.map (Prod.mk budget) ++ pending) out := by
  rw [collectText]
  split <;> simp_all

theorem Yields.collectText_eq (yields : Yields arena avoid ids tokens) {budget : Nat}
    (ends : ∀ id ∈ ids, EndsWithin arena.below? budget id) (pending : List (Nat × NodeId))
    (out : String) :
    arena.collectText (ids.map (Prod.mk budget) ++ pending) out =
      arena.collectText pending (out ++ String.join (tokens.map Token.displayText)) := by
  induction yields generalizing budget pending out with
  | nil => simp [String.join]
  | leaf outside found rest ih =>
    obtain ⟨leaf, here, rfl⟩ := Arena.exists_leaf_of_token? found
    obtain ⟨-, endsRest⟩ := List.forall_mem_cons.mp ends
    rw [List.map_cons, List.cons_append, Arena.collectText_of_leaf here, ih endsRest,
      List.map_cons, String.join_cons, String.append_assoc]
  | @context id inner ids tokens outside isContext below rest ihBelow ihRest =>
    obtain ⟨context, here⟩ := Arena.isContext_iff.mp isContext
    have found := Arena.context?_eq_some_iff.mpr here
    obtain ⟨endsHere, endsRest⟩ := List.forall_mem_cons.mp ends
    have children : arena.children id = context.children := Arena.children_of_node? here
    rcases budget with - | budget
    · exact absurd endsHere (Arena.not_endsWithin_below?_zero found)
    · have endsBelow := (Arena.endsWithin_below?_succ found).mp endsHere
      rw [List.map_cons, List.cons_append, Arena.collectText_of_context here, ← children,
        ihBelow (children ▸ endsBelow), ihRest endsRest, List.map_append, String.join_append,
        String.append_assoc]

/-- The text of a node is that of the tokens that it yields. -/
theorem Yields.text?_eq (yields : Yields arena avoid [id] tokens) (ends : arena.EndsBelow id) :
    arena.text? id = some (String.join (tokens.map Token.displayText)) := by
  have within : EndsWithin arena.below? arena.size id := Arena.endsWithin_below?_iff.mpr ends
  have collected := yields.collectText_eq (List.forall_mem_singleton.mpr within) [] ""
  rw [Arena.text?, Arena.heightLimit]
  refine collected.trans ?_
  rw [Arena.collectText, String.empty_append]

/-! ## The rightmost branch -/

/-- The contexts from a node outwards, each the last child of the next one, and the tokens of the
leaves that come before the node. -/
inductive Spine (arena : Arena) (avoid : List NodeId) :
    NodeId → List NodeId → List Token → Prop
  | root (id : NodeId) : Spine arena avoid id [] []
  | nest {id outer : NodeId} {outers closed : List NodeId} {before tokens : List Token}
      (spine : Spine arena avoid outer outers before)
      (last : arena.children outer = closed ++ [id]) (yields : Yields arena avoid closed tokens) :
      Spine arena avoid id (outer :: outers) (before ++ tokens)

namespace Spine

variable {outers : List NodeId} {before : List Token}

theorem transfer (spine : Spine arena avoid id outers before)
    (untouched : arena.Untouched after avoid)
    (sameOuters : ∀ outer ∈ outers, after.children outer = arena.children outer)
    (outside : ∀ id, id.index < arena.size → id ∉ avoid → id ∉ avoidAfter) :
    Spine after avoidAfter id outers before := by
  induction spine with
  | root id => exact .root id
  | nest spine last yields ih =>
    obtain ⟨same, sameAbove⟩ := List.forall_mem_cons.mp sameOuters
    exact .nest (ih sameAbove) (same.trans last) (yields.transfer untouched outside)

/-- What the outermost context yields is what stands before the innermost one and what that one
yields. -/
theorem yields_bottom (spine : Spine arena [] id outers before)
    (yields : Yields arena [] [id] tokens) {bottom : NodeId}
    (isBottom : (id :: outers).getLast? = some bottom) :
    Yields arena [] [bottom] (before ++ tokens) := by
  induction spine generalizing tokens with
  | root id =>
    cases isBottom
    exact yields
  | @nest id outer outers closed before inner spine last closedYields ih =>
    have listed : id ∈ arena.children outer := by
      rw [last]
      exact List.mem_append_right closed (List.mem_singleton_self id)
    have isContext : arena.IsContext outer := Arena.isContext_of_mem_children listed
    have below : Yields arena [] (arena.children outer) (inner ++ tokens) := by
      rw [last]
      exact closedYields.append yields
    rw [List.getLast?_cons_cons] at isBottom
    rw [List.append_assoc]
    exact ih (.of_children List.not_mem_nil isContext below) isBottom

end Spine

end Recognizer.Tree
