import Rszero.Saga

/-!
# Persistent sagas

`PersistentSaga.execute` calls the persister beside the actions and the compensations. It logs an
error of `record_step` and goes on, so the answers of the persister never reach the loops, and the
persistent saga makes the calls of the saga and returns its result.
-/

namespace Rszero

inductive SagaState
  | running
  | compensating
  | completed
  | failed
  | compensated
  deriving DecidableEq

/-- The arguments of `record_step`. -/
structure StepRecord where
  saga_id : String
  saga_name : String
  step_name : String
  state : SagaState
  input : Option String
  output : Option String
  error : Option String
  deriving DecidableEq

structure PersistentSaga (A C : Type) where
  saga : Saga A C
  saga_id : String

abbrev StepRecord.Answer : StepRecord → Type := fun _ => Except RszeroError Unit

variable {A C T : Type}

namespace PersistentSaga

abbrev Answer (A C T : Type) : SagaCall A C ⊕ StepRecord → Type :=
  Sum.elim (SagaCall.Answer T) StepRecord.Answer

abbrev Program (A C T α : Type) := CallProgram (Answer A C T) α

abbrev Call (A C T : Type) := Sigma (Answer A C T)

def record (p : PersistentSaga A C) (step_name : String) (state : SagaState)
    (error : Option String) : StepRecord :=
  ⟨p.saga_id, p.saga.name, step_name, state, none, none, error⟩

/-- An error of the persister is logged and dropped. -/
def persist {α : Type} (r : StepRecord) (next : Program A C T α) : Program A C T α :=
  .call (.inr r) (fun _ => next)

def retryCompensation (p : PersistentSaga A C) (comp_step : SagaStep A C)
    (compensation_errors : StepErrors) : List ℕ → Program A C T StepErrors
  | [] => .done compensation_errors
  | retry :: retries => .call (.inl (.compensate comp_step)) fun
      | .ok () => persist (p.record comp_step.name .compensated none) (.done compensation_errors)
      | .error ce =>
          if retry = 2 then
            persist (p.record comp_step.name .compensating (some ce.toString))
              (retryCompensation p comp_step
                (compensation_errors ++ [(comp_step.name, .internal ce.toString none)]) retries)
          else retryCompensation p comp_step compensation_errors retries

def compensateAll (p : PersistentSaga A C) (compensation_errors : StepErrors) :
    List ℕ → Program A C T StepErrors
  | [] => .done compensation_errors
  | i :: is =>
      match p.saga.steps[i]? with
      | none => .panic
      | some comp_step =>
          (retryCompensation p comp_step compensation_errors (List.range 3)).bind
            (fun compensation_errors => compensateAll p compensation_errors is)

def executeSteps (p : PersistentSaga A C) (completed : List String) (outputs : List T) :
    List (SagaStep A C) → Program A C T (SagaResult T)
  | [] => persist (p.record "__end__" .completed none) (.done ⟨completed, outputs, none, none, []⟩)
  | step :: rest =>
      persist (p.record step.name .running none) <| .call (.inl (.execute step)) fun
      | .ok output =>
          persist (p.record step.name .completed none)
            (executeSteps p (completed ++ [step.name]) (outputs ++ [output]) rest)
      | .error e =>
          persist (p.record step.name .failed (some e.toString)) <|
          persist (p.record "__compensate__" .compensating none) <|
          (compensateAll p [] (List.range completed.length).reverse).bind fun compensation_errors =>
          persist (p.record "__end__" .failed (some e.toString)) <|
          .done ⟨completed, outputs, some step.name, some e, compensation_errors⟩

def execute (p : PersistentSaga A C) : Program A C T (SagaResult T) :=
  persist (p.record "__start__" .running none) (executeSteps p [] [] p.saga.steps)

/-- The persistent saga keeps only the text of a compensation error. -/
def wrapErrors (errors : StepErrors) : StepErrors :=
  errors.map (fun e => (e.1, .internal e.2.toString none))

def wrapResult (result : SagaResult T) : SagaResult T :=
  { result with compensation_errors := wrapErrors result.compensation_errors }

theorem wrapErrors_append (errors errors' : StepErrors) :
    wrapErrors (errors ++ errors') = wrapErrors errors ++ wrapErrors errors' := List.map_append

open CallProgram (Erases)

theorem Erases.persist {α β : Type} {rel : β → α → Prop} {r : StepRecord} {q : Program A C T β}
    {p : Saga.Program A C T α} (h : Erases rel q p) : Erases rel (persist r q) p :=
  .aux (fun _ => h)

theorem retryCompensation_erases (p : PersistentSaga A C) (step : SagaStep A C)
    (errors : StepErrors) (retries : List ℕ) :
    Erases (fun errors' errors => errors' = wrapErrors errors)
      (p.retryCompensation (T := T) step (wrapErrors errors) retries)
      (Saga.retryCompensation step errors retries) := by
  induction retries generalizing errors with
  | nil => exact .done rfl
  | cons retry retries ih =>
      refine .call (fun ans => ?_)
      cases ans with
      | ok => exact Erases.persist (.done rfl)
      | error ce =>
          by_cases hretry : retry = 2
          · simp only [if_pos hretry]
            have hnext := ih (errors ++ [(step.name, ce)])
            rw [wrapErrors_append] at hnext
            exact Erases.persist hnext
          · simp only [if_neg hretry]
            exact ih errors

theorem compensateAll_erases (p : PersistentSaga A C) (errors : StepErrors) (is : List ℕ) :
    Erases (fun errors' errors => errors' = wrapErrors errors)
      (p.compensateAll (T := T) (wrapErrors errors) is)
      (Saga.compensateAll p.saga.steps errors is) := by
  induction is generalizing errors with
  | nil => exact .done rfl
  | cons i is ih =>
      unfold compensateAll Saga.compensateAll
      cases p.saga.steps[i]? with
      | none => exact .panic
      | some step =>
          refine (p.retryCompensation_erases step errors (List.range 3)).bind ?_
          rintro _ errors rfl
          exact ih errors

theorem executeSteps_erases (p : PersistentSaga A C) (completed : List String) (outputs : List T)
    (rest : List (SagaStep A C)) :
    Erases (fun result' result => result' = wrapResult result)
      (p.executeSteps completed outputs rest)
      (Saga.executeSteps p.saga.steps completed outputs rest) := by
  induction rest generalizing completed outputs with
  | nil => exact Erases.persist (.done rfl)
  | cons step rest ih =>
      refine Erases.persist (.call (fun ans => ?_))
      cases ans with
      | ok output => exact Erases.persist (ih _ _)
      | error e =>
          refine Erases.persist (Erases.persist ?_)
          refine (p.compensateAll_erases [] _).bind ?_
          rintro _ errors rfl
          exact Erases.persist (.done rfl)

/-- Whatever the persister answers, the persistent saga makes the calls of the saga in the same
order and returns the same result, up to the form of the compensation errors. -/
theorem execute_refines_saga (p : PersistentSaga A C)
    (env : CallProgram.Environment (SagaCall.Answer (A := A) (C := C) T))
    (persister : List (Call A C T) → (r : StepRecord) → Except RszeroError Unit) :
    let run := CallProgram.run (CallProgram.withAux env persister) [] p.execute
    let sagaRun := CallProgram.run env [] p.saga.execute
    CallProgram.visible run.1 = sagaRun.1 ∧ run.2 = sagaRun.2.map wrapResult := by
  have herases : Erases (fun result' result => result' = wrapResult result)
      (p.execute (T := T)) p.saga.execute := Erases.persist (p.executeSteps_erases [] [] _)
  obtain ⟨hcalls, hresult⟩ := herases.run env persister []
  refine ⟨hcalls, ?_⟩
  rw [CallProgram.visible_nil] at hresult
  generalize (CallProgram.run (CallProgram.withAux env persister) [] p.execute).2 = result',
    (CallProgram.run env [] p.saga.execute).2 = result at hresult ⊢
  cases hresult with
  | some h => exact congrArg some h
  | none => rfl

end PersistentSaga
end Rszero
