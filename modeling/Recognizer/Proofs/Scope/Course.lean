import Recognizer.Scope.Program

/-!
# The course of a run

A run of a program is known by its ending and by the state that it leaves.  This module says what
happens on the way: `Program.executions` are the attempts and the scopes that a run executes, in the
order in which they end, each with the states before and after it and before and after its body.
`Program.ownActions` are the actions of a program outside of its scopes.

Where no step fails on its own (`Semantics.Serves`), the control flow is that of the program text:
a failure leaves the bodies around it up to the nearest attempt (`Program.raised`,
`Serves.message?_run`), and every execution is what it says to be (`Serves.valid`).
-/

namespace Recognizer.Scope

variable {α β σ : Type}

/-- The message of a failure. -/
def Ending.message? : Ending → Option String
  | failed message => some message
  | done | left => none

/-- A part of a program that has a body of its own. -/
inductive Block (β : Type)
  | attempt
  | scope (header : β)
  deriving DecidableEq, Repr

/-- A block that a run has executed. -/
structure Execution (α β σ : Type) where
  block : Block β
  body : Program α β
  /-- The state that the block finds. -/
  before : σ
  /-- The state in which the body begins. -/
  begun : σ
  ending : Ending
  /-- The state in which the body ends. -/
  ended : σ
  /-- The state that the block leaves. -/
  after : σ

namespace Program

/-- The blocks that a run executes, in the order in which they end. -/
def executions (sem : Semantics α β σ) : Program α β → σ → List (Execution α β σ)
  | finish, _ | leave, _ | fail _, _ => []
  | act action rest, s =>
    match sem.act action s with
    | .ok _ s => rest.executions sem s
    | .error _ _ => []
  | attempt body rest, s =>
    match body.run sem s with
    | (ending, ended) =>
      body.executions sem s ++
        ⟨.attempt, body, s, s, ending, ended, sem.caught ending ended⟩ ::
          rest.executions sem (sem.caught ending ended)
  | scope header body rest, s =>
    match sem.enter header s with
    | .error _ _ => []
    | .ok _ begun =>
      match body.run sem begun with
      | (ending, ended) =>
        body.executions sem begun ++
          match sem.exit header ending ended with
          | .error _ after => [⟨.scope header, body, s, begun, ending, ended, after⟩]
          | .ok _ after =>
            ⟨.scope header, body, s, begun, ending, ended, after⟩ ::
              match ending.message? with
              | some _ => []
              | none => rest.executions sem after

/-- The actions that a run carries out outside of the scopes of the program, each with the state
that it finds. -/
def ownActions (sem : Semantics α β σ) : Program α β → σ → List (α × σ)
  | finish, _ | leave, _ | fail _, _ => []
  | act action rest, s =>
    (action, s) ::
      match sem.act action s with
      | .ok _ s => rest.ownActions sem s
      | .error _ _ => []
  | attempt body rest, s =>
    match body.run sem s with
    | (ending, ended) => body.ownActions sem s ++ rest.ownActions sem (sem.caught ending ended)
  | scope header body rest, s =>
    match sem.enter header s with
    | .error _ _ => []
    | .ok _ begun =>
      match body.run sem begun with
      | (ending, ended) =>
        match sem.exit header ending ended, ending.message? with
        | .ok _ after, none => rest.ownActions sem after
        | _, _ => []

/-- The message of the failure that leaves a program: scopes let it through, and attempts do not. -/
def raised : Program α β → Option String
  | finish | leave => none
  | fail message => some message
  | act _ rest => rest.raised
  | attempt _ rest => rest.raised
  | scope _ body rest => body.raised.or rest.raised

/-- All actions and all headers of a program meet a condition. -/
def All (ofAction : α → Prop) (ofHeader : β → Prop) : Program α β → Prop
  | finish | leave | fail _ => True
  | act action rest => ofAction action ∧ rest.All ofAction ofHeader
  | attempt body rest => body.All ofAction ofHeader ∧ rest.All ofAction ofHeader
  | scope header body rest =>
    ofHeader header ∧ body.All ofAction ofHeader ∧ rest.All ofAction ofHeader

instance All.decide (ofAction : α → Prop) (ofHeader : β → Prop) [DecidablePred ofAction]
    [DecidablePred ofHeader] : (program : Program α β) → Decidable (program.All ofAction ofHeader)
  | finish | leave | fail _ => isTrue trivial
  | act action rest =>
    have := All.decide ofAction ofHeader rest
    inferInstanceAs (Decidable (ofAction action ∧ rest.All ofAction ofHeader))
  | attempt body rest =>
    have := All.decide ofAction ofHeader body
    have := All.decide ofAction ofHeader rest
    inferInstanceAs (Decidable (body.All ofAction ofHeader ∧ rest.All ofAction ofHeader))
  | scope header body rest =>
    have := All.decide ofAction ofHeader body
    have := All.decide ofAction ofHeader rest
    inferInstanceAs (Decidable
      (ofHeader header ∧ body.All ofAction ofHeader ∧ rest.All ofAction ofHeader))

end Program

/-! ## Steps that succeed -/

namespace Program

variable {sem : Semantics α β σ} {action : α} {header : β} {body rest : Program α β}
  {s begun ended after : σ} {ending : Ending}

theorem run_act (done : sem.act action s = .ok () after) :
    (act action rest).run sem s = rest.run sem after := by
  simp only [run, done]

theorem executions_act (done : sem.act action s = .ok () after) :
    (act action rest).executions sem s = rest.executions sem after := by
  simp only [executions, done]

theorem ownActions_act (done : sem.act action s = .ok () after) :
    (act action rest).ownActions sem s = (action, s) :: rest.ownActions sem after := by
  simp only [ownActions, done]

theorem run_attempt (ran : body.run sem s = (ending, ended)) :
    (attempt body rest).run sem s = rest.run sem (sem.caught ending ended) := by
  simp only [run, ran]

theorem executions_attempt (ran : body.run sem s = (ending, ended)) :
    (attempt body rest).executions sem s =
      body.executions sem s ++ ⟨.attempt, body, s, s, ending, ended, sem.caught ending ended⟩ ::
        rest.executions sem (sem.caught ending ended) := by
  simp only [executions, ran]

theorem ownActions_attempt (ran : body.run sem s = (ending, ended)) :
    (attempt body rest).ownActions sem s =
      body.ownActions sem s ++ rest.ownActions sem (sem.caught ending ended) := by
  simp only [ownActions, ran]

section Scopes

variable (entered : sem.enter header s = .ok () begun) (ran : body.run sem begun = (ending, ended))
  (exited : sem.exit header ending ended = .ok () after)
include entered ran exited

/-- After a scope a failure of its body goes on, and otherwise the steps after it do. -/
theorem run_scope :
    (scope header body rest).run sem s =
      match ending.message? with
      | some message => (.failed message, after)
      | none => rest.run sem after := by
  simp only [run, entered, ran, exited]
  cases ending <;> rfl

theorem executions_scope :
    (scope header body rest).executions sem s =
      body.executions sem begun ++ ⟨.scope header, body, s, begun, ending, ended, after⟩ ::
        match ending.message? with
        | some _ => []
        | none => rest.executions sem after := by
  simp only [executions, entered, ran, exited]

theorem ownActions_scope :
    (scope header body rest).ownActions sem s =
      match ending.message? with
      | some _ => []
      | none => rest.ownActions sem after := by
  simp only [ownActions, entered, ran, exited]
  cases ending <;> rfl

end Scopes

end Program

/-! ## Semantics in which no step fails on its own -/

/-- In a state that meets the invariant every step succeeds, and the next state meets it too. -/
structure Semantics.Serves (sem : Semantics α β σ) (invariant : σ → Prop) : Prop where
  act : ∀ action s, invariant s → ∃ after, sem.act action s = .ok () after ∧ invariant after
  enter : ∀ header s, invariant s → ∃ begun, sem.enter header s = .ok () begun ∧ invariant begun
  exit : ∀ header ending s, invariant s →
    ∃ after, sem.exit header ending s = .ok () after ∧ invariant after
  caught : ∀ ending s, invariant s → invariant (sem.caught ending s)

/-- An execution does what the semantics says: the body runs between the two ends of the block. -/
inductive Execution.Valid (sem : Semantics α β σ) : Execution α β σ → Prop
  | attempt {body : Program α β} {s ended : σ} {ending : Ending}
      (ran : body.run sem s = (ending, ended)) :
      Valid sem ⟨.attempt, body, s, s, ending, ended, sem.caught ending ended⟩
  | scope {header : β} {body : Program α β} {before begun ended after : σ} {ending : Ending}
      (entered : sem.enter header before = .ok () begun)
      (ran : body.run sem begun = (ending, ended))
      (exited : sem.exit header ending ended = .ok () after) :
      Valid sem ⟨.scope header, body, before, begun, ending, ended, after⟩

theorem Execution.Valid.ran {sem : Semantics α β σ} {execution : Execution α β σ}
    (valid : execution.Valid sem) :
    execution.body.run sem execution.begun = (execution.ending, execution.ended) := by
  cases valid with
  | attempt ran => exact ran
  | scope _ ran _ => exact ran

namespace Semantics.Serves

variable {sem : Semantics α β σ} {invariant : σ → Prop} {s : σ}

/-- A run keeps the invariant, and it fails as the program text says. -/
theorem run (serves : sem.Serves invariant) (program : Program α β) (meets : invariant s) :
    invariant (program.run sem s).2 ∧ (program.run sem s).1.message? = program.raised := by
  induction program generalizing s with
  | finish | leave | fail => exact ⟨meets, rfl⟩
  | act action rest ih =>
    obtain ⟨after, done, meetsAfter⟩ := serves.act action s meets
    rw [Program.run_act done]
    exact ih meetsAfter
  | attempt body rest ihBody ihRest =>
    exact ihRest (serves.caught _ _ (ihBody meets).1)
  | scope header body rest ihBody ihRest =>
    obtain ⟨begun, entered, meetsBegun⟩ := serves.enter header s meets
    rcases ran : body.run sem begun with ⟨ending, ended⟩
    obtain ⟨meetsEnded, message⟩ := ran ▸ ihBody meetsBegun
    obtain ⟨after, exited, meetsAfter⟩ := serves.exit header ending ended meetsEnded
    rw [Program.run_scope entered ran exited, Program.raised, ← message]
    rcases ending.message? with - | text
    · exact ihRest meetsAfter
    · exact ⟨meetsAfter, rfl⟩

theorem message?_run (serves : sem.Serves invariant) (program : Program α β) (meets : invariant s) :
    (program.run sem s).1.message? = program.raised :=
  (serves.run program meets).2

/-- What is executed is valid, and it begins in a state that meets the invariant. -/
theorem valid (serves : sem.Serves invariant) (program : Program α β) (meets : invariant s) :
    ∀ execution ∈ program.executions sem s,
      execution.Valid sem ∧ invariant execution.before := by
  induction program generalizing s with
  | finish | leave | fail => exact fun _ executed => nomatch executed
  | act action rest ih =>
    obtain ⟨after, done, meetsAfter⟩ := serves.act action s meets
    rw [Program.executions_act done]
    exact ih meetsAfter
  | attempt body rest ihBody ihRest =>
    rcases ran : body.run sem s with ⟨ending, ended⟩
    obtain ⟨meetsEnded, -⟩ := ran ▸ serves.run body meets
    have meetsAfter := serves.caught ending ended meetsEnded
    rw [Program.executions_attempt ran]
    refine List.forall_mem_append.mpr ⟨ihBody meets, List.forall_mem_cons.mpr ⟨?_, ?_⟩⟩
    · exact ⟨.attempt ran, meets⟩
    · exact ihRest meetsAfter
  | scope header body rest ihBody ihRest =>
    obtain ⟨begun, entered, meetsBegun⟩ := serves.enter header s meets
    rcases ran : body.run sem begun with ⟨ending, ended⟩
    obtain ⟨meetsEnded, -⟩ := ran ▸ serves.run body meetsBegun
    obtain ⟨after, exited, meetsAfter⟩ := serves.exit header ending ended meetsEnded
    rw [Program.executions_scope entered ran exited]
    refine List.forall_mem_append.mpr ⟨ihBody meetsBegun, List.forall_mem_cons.mpr ⟨?_, ?_⟩⟩
    · exact ⟨.scope entered ran exited, meets⟩
    · rcases ending.message? with - | text
      · exact ihRest meetsAfter
      · exact fun _ executed => nomatch executed

end Semantics.Serves

/-- The block of an execution is part of the program, also if a step fails. -/
theorem Program.All.of_executed {ofAction : α → Prop} {ofHeader : β → Prop}
    {sem : Semantics α β σ} {program : Program α β} (all : program.All ofAction ofHeader) {s : σ} :
    ∀ execution ∈ program.executions sem s,
      execution.body.All ofAction ofHeader ∧
        ∀ header, execution.block = .scope header → ofHeader header := by
  induction program generalizing s with
  | finish | leave | fail => exact fun _ executed => nomatch executed
  | act action rest ih =>
    unfold executions
    split
    · exact ih all.2
    · exact fun _ executed => nomatch executed
  | attempt body rest ihBody ihRest =>
    refine List.forall_mem_append.mpr ⟨ihBody all.1, List.forall_mem_cons.mpr ⟨?_, ihRest all.2⟩⟩
    exact ⟨all.1, nofun⟩
  | scope header body rest ihBody ihRest =>
    obtain ⟨here, ofBody, ofRest⟩ := all
    have itself (before begun ended after : σ) (ending : Ending) :
        (⟨.scope header, body, before, begun, ending, ended, after⟩ :
          Execution α β σ).body.All ofAction ofHeader ∧
        ∀ other, Block.scope header = .scope other → ofHeader other := by
      refine ⟨ofBody, fun other same => ?_⟩
      cases same
      exact here
    unfold executions
    split
    · exact fun _ executed => nomatch executed
    · refine List.forall_mem_append.mpr ⟨ihBody ofBody, ?_⟩
      split
      · exact List.forall_mem_singleton.mpr (itself ..)
      · refine List.forall_mem_cons.mpr ⟨itself .., ?_⟩
        split
        · exact fun _ executed => nomatch executed
        · exact ihRest ofRest

end Recognizer.Scope
