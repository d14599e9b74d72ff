import Recognizer.Proofs.Tree.Revision

/-!
# Outcomes of edits

An `Edit` is a computation that may be refused half way.  Each edit gets one equation here: the
condition under which it succeeds, the revised arena that it leaves then, and the fault and the
arena of a refusal.  Nothing downstream looks into the computations again.

For a `Mutation` the conditions are collected in `Mutation.Admitted` and the arenas in
`Mutation.apply`; `Mutation.run_eq_ok_iff` says that they describe exactly the runs that succeed.
-/

namespace Recognizer

/-! ## Sequencing -/

section Sequencing

variable {ε σ α β : Type} {first : EStateM ε σ α} {second : α → EStateM ε σ β} {state after : σ}

theorem bind_of_ok {answer : α} (ok : first state = .ok answer after) :
    (first >>= second) state = second answer after := by
  simp only [bind, EStateM.bind, ok]

theorem bind_of_error {fault : ε} (refused : first state = .error fault after) :
    (first >>= second) state = .error fault after := by
  simp only [bind, EStateM.bind, refused]

theorem map_of_ok {answer : α} (change : α → β) (ok : first state = .ok answer after) :
    (change <$> first) state = .ok (change answer) after := by
  simp only [Functor.map, EStateM.map, ok]

end Sequencing

namespace Tree

/-! ## Single edits -/

/-- What is wrong with an id that should be a context but is none. -/
def Arena.contextFault (arena : Arena) (id : NodeId) : Fault :=
  match arena.node? id with
  | some (.leaf leaf) => .notContext id leaf.kind
  | _ => .noSuchContext id

namespace Arena

variable {arena : Arena} {id : NodeId}

/-- Putting a changed node in the place of the node that was found is a modification. -/
theorem setIfInBounds_eq_modify {node : Node} (found : arena.node? id = some node)
    (change : Node → Node) :
    (⟨arena.nodes.setIfInBounds id.index (change node)⟩ : Arena) = arena.modify id change := by
  have inside : id.index < arena.nodes.size := lt_size_of_node? found
  have here : arena.nodes[id.index]? = some node := found
  refine congrArg Arena.mk (Array.ext_getElem? fun index => ?_)
  rw [Array.getElem?_setIfInBounds, Array.getElem?_modify]
  by_cases same : id.index = index
  · subst same
    rw [if_pos rfl, if_pos rfl, if_pos inside, here]
    rfl
  · rw [if_neg same, if_neg same]

/-- A leaf that is pushed is no context. -/
theorem isContext_push_leaf {leaf : Leaf} :
    (arena.push (.leaf leaf)).IsContext id ↔ arena.IsContext id := by
  refine ⟨fun isContext => ?_, fun isContext => isContext.push _⟩
  rw [IsContext, context?_push] at isContext
  split at isContext
  · cases isContext
  · exact isContext

end Arena

namespace Edit

variable {arena : Arena} {id child source : NodeId}

theorem getContext_of_context? {context : Context} (found : arena.context? id = some context) :
    getContext id arena = .ok context arena := by
  unfold getContext
  rw [Arena.context?_eq_some_iff.mp found]

theorem getContext_of_not_isContext (refused : ¬ arena.IsContext id) :
    getContext id arena = .error (arena.contextFault id) arena := by
  unfold getContext Arena.contextFault
  rcases found : arena.node? id with - | ⟨l⟩ | ⟨c⟩
  · rfl
  · rfl
  · exact absurd (Arena.isContext_iff.mpr ⟨c, found⟩) refused

theorem modifyContext_eq (change : Context → Context) :
    modifyContext id change arena =
      if arena.IsContext id then .ok () (arena.modify id (.onContext change))
      else .error (arena.contextFault id) arena := by
  unfold modifyContext
  by_cases isContext : arena.IsContext id
  · obtain ⟨context, found⟩ := Option.isSome_iff_exists.mp isContext
    rw [if_pos isContext, bind_of_ok (getContext_of_context? found)]
    have node := Arena.context?_eq_some_iff.mp found
    exact congrArg (EStateM.Result.ok ()) (Arena.setIfInBounds_eq_modify node (.onContext change))
  · rw [if_neg isContext, bind_of_error (getContext_of_not_isContext isContext)]

theorem appendChild_eq :
    appendChild id child arena =
      if arena.IsContext id then .ok () (arena.append id child)
      else .error (arena.contextFault id) arena :=
  modifyContext_eq (.append child)

theorem inherit_eq :
    inherit id source arena =
      match arena.context? source with
      | none => .error (arena.contextFault source) arena
      | some giver =>
        if arena.IsContext id then .ok () (arena.modify id (.onContext (·.inherit giver)))
        else .error (arena.contextFault id) arena := by
  unfold inherit
  rcases found : arena.context? source with - | giver
  · have refused : ¬ arena.IsContext source := by simp [Arena.IsContext, found]
    exact bind_of_error (getContext_of_not_isContext refused)
  · rw [bind_of_ok (getContext_of_context? found)]
    exact modifyContext_eq (·.inherit giver)

/-- A leaf is added to the arena before its context is looked at. -/
theorem addLeaf_eq (kind : LeafKind) (token : Token) :
    addLeaf id kind token arena =
      if arena.IsContext id then
        .ok arena.nextId ((arena.push (.leaf ⟨kind, token, id⟩)).append id arena.nextId)
      else
        .error ((arena.push (.leaf ⟨kind, token, id⟩)).contextFault id)
          (arena.push (.leaf ⟨kind, token, id⟩)) := by
  have pushed : push (.leaf ⟨kind, token, id⟩) arena =
      .ok arena.nextId (arena.push (.leaf ⟨kind, token, id⟩)) := rfl
  have appended : appendChild id arena.nextId (arena.push (.leaf ⟨kind, token, id⟩)) = _ :=
    appendChild_eq
  unfold addLeaf
  rw [bind_of_ok pushed]
  by_cases isContext : arena.IsContext id
  · rw [if_pos (Arena.isContext_push_leaf.mpr isContext)] at appended
    rw [if_pos isContext, bind_of_ok appended]
    rfl
  · rw [if_neg (mt Arena.isContext_push_leaf.mp isContext)] at appended
    rw [if_neg isContext, bind_of_error appended]

theorem setParent_eq :
    setParent child id arena =
      if child.index < arena.size then .ok () (arena.modify child (.withParent id))
      else .error (.noSuchChild child arena.size) arena := by
  unfold setParent
  by_cases inside : child.index < arena.size
  · obtain ⟨node, found⟩ := Arena.exists_node?_of_lt_size inside
    rw [if_pos inside, found]
    exact congrArg (EStateM.Result.ok ()) (Arena.setIfInBounds_eq_modify found (.withParent id))
  · have missing : arena.node? child = none :=
      Array.getElem?_eq_none_iff.mpr (Nat.le_of_not_lt inside)
    rw [if_neg inside, missing]

/-- A child is linked to its context before the context is looked at. -/
theorem addChild_eq :
    addChild id child arena =
      match arena.isAtOrAbove? child id with
      | some true => .error (.cycle id child) arena
      | none => .error (.endless id) arena
      | some false =>
        if child.index < arena.size then
          if arena.IsContext id then
            .ok () ((arena.modify child (.withParent id)).append id child)
          else
            .error ((arena.modify child (.withParent id)).contextFault id)
              (arena.modify child (.withParent id))
        else .error (.noSuchChild child arena.size) arena := by
  unfold addChild
  rcases guard : arena.isAtOrAbove? child id with - | _ | _
  · exact bind_of_error (by simp only [checkAcyclic, guard])
  · have passed : checkAcyclic id child arena = .ok () arena := by
      simp only [checkAcyclic, guard]
    rw [bind_of_ok passed]
    have linked : setParent child id arena = _ := setParent_eq
    by_cases inside : child.index < arena.size
    · rw [if_pos inside] at linked
      rw [bind_of_ok linked, appendChild_eq, if_pos inside]
      simp only [Arena.isContext_modify_withParent]
    · rw [if_neg inside] at linked
      rw [bind_of_error linked, if_neg inside]
  · exact bind_of_error (by simp only [checkAcyclic, guard])

theorem removeLastChild_eq :
    removeLastChild id arena =
      if arena.IsContext id then .ok (arena.children id).getLast? (arena.dropLast id)
      else .error (arena.contextFault id) arena := by
  unfold removeLastChild
  by_cases isContext : arena.IsContext id
  · obtain ⟨context, found⟩ := Option.isSome_iff_exists.mp isContext
    have node := Arena.context?_eq_some_iff.mp found
    have children : arena.children id = context.children := Arena.children_of_node? node
    rw [if_pos isContext, bind_of_ok (getContext_of_context? found), children]
    rcases last : context.children.getLast? with - | child
    · rw [Arena.dropLast_of_children_eq_nil (children.trans (List.getLast?_eq_none_iff.mp last))]
      rfl
    · have changed : setNode id (.context (context.withChildren context.children.dropLast)) arena =
          .ok () (arena.dropLast id) :=
        congrArg (EStateM.Result.ok ()) (Arena.setIfInBounds_eq_modify node (.onContext .dropLast))
      exact bind_of_ok changed
  · rw [if_neg isContext, bind_of_error (getContext_of_not_isContext isContext)]

end Edit

/-! ## Mutations -/

namespace Mutation

/-- The condition under which an arena admits an edit: it names contexts where it needs them, and a
child that is added does not stand at or above its new context. -/
def Admitted (arena : Arena) : Mutation → Prop
  | create _ _ _ => True
  | inherit id source => arena.IsContext source ∧ arena.IsContext id
  | addChild id child =>
    arena.isAtOrAbove? child id = some false ∧ child.index < arena.size ∧ arena.IsContext id
  | addLeaf id _ _ | removeLastChild id | setStart id _ | setStop id _ | setAlt id _ =>
    arena.IsContext id

/-- The arena after an edit that it admits. -/
def apply (arena : Arena) : Mutation → Arena
  | create parent invokingState rule => arena.push (.context (.fresh parent invokingState rule))
  | inherit id source =>
    match arena.context? source with
    | some giver => arena.modify id (.onContext (·.inherit giver))
    | none => arena
  | addLeaf id kind token => (arena.push (.leaf ⟨kind, token, id⟩)).append id arena.nextId
  | addChild id child => (arena.modify child (.withParent id)).append id child
  | removeLastChild id => arena.dropLast id
  | setStart id token =>
    arena.modify id (.onContext fun context => { context with start := some token })
  | setStop id token =>
    arena.modify id (.onContext fun context => { context with stop := some token })
  | setAlt id alt =>
    arena.modify id (.onContext fun context => { context with alt := some alt })

/-- The answer of an edit that the arena admits. -/
def answer (arena : Arena) : Mutation → Option NodeId
  | create _ _ _ | addLeaf _ _ _ => some arena.nextId
  | addChild _ child => some child
  | removeLastChild id => (arena.children id).getLast?
  | inherit _ _ | setStart _ _ | setStop _ _ | setAlt _ _ => none

variable {arena after : Arena} {mutation : Mutation} {answer : Option NodeId}

theorem run_of_admitted (admitted : mutation.Admitted arena) :
    mutation.run arena = .ok (mutation.answer arena) (mutation.apply arena) := by
  cases mutation with
  | create parent invokingState rule => rfl
  | inherit id source =>
    obtain ⟨isSource, isContext⟩ := admitted
    obtain ⟨giver, found⟩ := Option.isSome_iff_exists.mp isSource
    simp only [run, apply, Mutation.answer, Functor.map, EStateM.map, Edit.inherit_eq, found,
      if_pos isContext]
  | addLeaf id kind token =>
    simp only [run, apply, Mutation.answer, Functor.map, EStateM.map, Edit.addLeaf_eq,
      if_pos (show arena.IsContext id from admitted)]
  | addChild id child =>
    obtain ⟨guard, inside, isContext⟩ := admitted
    simp only [run, apply, Mutation.answer, Functor.map, EStateM.map, Edit.addChild_eq, guard,
      if_pos inside, if_pos isContext]
  | removeLastChild id =>
    simp only [run, apply, Mutation.answer, Edit.removeLastChild_eq,
      if_pos (show arena.IsContext id from admitted)]
  | setStart id token =>
    simp only [run, apply, Mutation.answer, Functor.map, EStateM.map, Edit.setStart,
      Edit.modifyContext_eq, if_pos (show arena.IsContext id from admitted)]
  | setStop id token =>
    simp only [run, apply, Mutation.answer, Functor.map, EStateM.map, Edit.setStop,
      Edit.modifyContext_eq, if_pos (show arena.IsContext id from admitted)]
  | setAlt id alt =>
    simp only [run, apply, Mutation.answer, Functor.map, EStateM.map, Edit.setAlt,
      Edit.modifyContext_eq, if_pos (show arena.IsContext id from admitted)]

theorem admitted_of_run (done : mutation.run arena = .ok answer after) :
    mutation.Admitted arena := by
  cases mutation with
  | create parent invokingState rule => trivial
  | inherit id source =>
    simp only [run, Functor.map, EStateM.map, Edit.inherit_eq] at done
    rcases found : arena.context? source with - | giver
    · simp only [found] at done
      cases done
    · simp only [found] at done
      by_cases isContext : arena.IsContext id
      · exact ⟨Option.isSome_iff_exists.mpr ⟨giver, found⟩, isContext⟩
      · simp only [if_neg isContext] at done
        cases done
  | addLeaf id kind token =>
    refine (Decidable.byContradiction fun refused => ?_ : arena.IsContext id)
    simp only [run, Functor.map, EStateM.map, Edit.addLeaf_eq, if_neg refused] at done
    cases done
  | addChild id child =>
    simp only [run, Functor.map, EStateM.map, Edit.addChild_eq] at done
    rcases guard : arena.isAtOrAbove? child id with - | _ | _
    · simp only [guard] at done
      cases done
    · simp only [guard] at done
      by_cases inside : child.index < arena.size
      · by_cases isContext : arena.IsContext id
        · exact ⟨guard, inside, isContext⟩
        · simp only [if_pos inside, if_neg isContext] at done
          cases done
      · simp only [if_neg inside] at done
        cases done
    · simp only [guard] at done
      cases done
  | removeLastChild id =>
    refine (Decidable.byContradiction fun refused => ?_ : arena.IsContext id)
    simp only [run, Edit.removeLastChild_eq, if_neg refused] at done
    cases done
  | setStart id token | setStop id token | setAlt id token =>
    refine (Decidable.byContradiction fun refused => ?_ : arena.IsContext id)
    simp only [run, Functor.map, EStateM.map, Edit.setStart, Edit.setStop, Edit.setAlt,
      Edit.modifyContext_eq, if_neg refused] at done
    cases done

/-- `Admitted`, `answer` and `apply` describe exactly the edits that are carried out. -/
theorem run_eq_ok_iff :
    mutation.run arena = .ok answer after ↔
      mutation.Admitted arena ∧ answer = mutation.answer arena ∧ after = mutation.apply arena := by
  constructor
  · intro done
    have admitted := admitted_of_run done
    rw [run_of_admitted admitted] at done
    cases done
    exact ⟨admitted, rfl, rfl⟩
  · intro described
    obtain ⟨admitted, rfl, rfl⟩ := described
    exact run_of_admitted admitted

end Mutation

end Tree

end Recognizer
