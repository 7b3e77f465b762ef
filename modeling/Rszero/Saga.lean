import Rszero.CallProgram
import Rszero.Error
import Mathlib.Data.List.Basic

/-!
# Sagas

`Saga.execute` as a program that calls the actions and the compensations of its steps. A closure is
a value of its own; what a call of it does is the environment's answer. `ExecutionLaw` says which
calls a saga makes for given answers, and which result it returns.
-/

namespace Rszero

structure SagaStep (A C : Type) where
  name : String
  action : A
  compensation : C

structure Saga (A C : Type) where
  name : String
  steps : List (SagaStep A C)

abbrev StepErrors := List (String × RszeroError)

structure SagaResult (T : Type) where
  completed : List String
  outputs : List T
  failed_step : Option String
  error : Option RszeroError
  compensation_errors : StepErrors

inductive SagaCall (A C : Type)
  | execute (step : SagaStep A C)
  | compensate (step : SagaStep A C)

variable {A C T : Type}

abbrev SagaCall.Answer (T : Type) : SagaCall A C → Type
  | .execute _ => Except RszeroError T
  | .compensate _ => Except RszeroError Unit

namespace Saga

abbrev Program (A C T α : Type) := CallProgram (SagaCall.Answer (A := A) (C := C) T) α

abbrev Call (A C T : Type) := Sigma (SagaCall.Answer (A := A) (C := C) T)

/-- The loop over `retry`. -/
def retryCompensation (comp_step : SagaStep A C) (compensation_errors : StepErrors) :
    List ℕ → Program A C T StepErrors
  | [] => .done compensation_errors
  | retry :: retries => .call (.compensate comp_step) fun
      | .ok () => .done compensation_errors
      | .error ce =>
          retryCompensation comp_step
            (if retry = 2 then compensation_errors ++ [(comp_step.name, ce)]
              else compensation_errors) retries

/-- The loop over the indices of the completed steps. -/
def compensateAll (steps : List (SagaStep A C)) (compensation_errors : StepErrors) :
    List ℕ → Program A C T StepErrors
  | [] => .done compensation_errors
  | i :: is =>
      match steps[i]? with
      | none => .panic
      | some comp_step =>
          (retryCompensation comp_step compensation_errors (List.range 3)).bind
            (fun compensation_errors => compensateAll steps compensation_errors is)

def executeSteps (steps : List (SagaStep A C)) (completed : List String) (outputs : List T) :
    List (SagaStep A C) → Program A C T (SagaResult T)
  | [] => .done ⟨completed, outputs, none, none, []⟩
  | step :: rest => .call (.execute step) fun
      | .ok output => executeSteps steps (completed ++ [step.name]) (outputs ++ [output]) rest
      | .error e =>
          (compensateAll steps [] (List.range completed.length).reverse).bind
            (fun compensation_errors =>
              .done ⟨completed, outputs, some step.name, some e, compensation_errors⟩)

def execute (saga : Saga A C) : Program A C T (SagaResult T) :=
  executeSteps saga.steps [] [] saga.steps

def executed (step : SagaStep A C) (output : T) : Call A C T := ⟨.execute step, .ok output⟩

def failed (step : SagaStep A C) (e : RszeroError) : Call A C T := ⟨.execute step, .error e⟩

def compensated (step : SagaStep A C) : Call A C T := ⟨.compensate step, .ok ()⟩

def uncompensated (step : SagaStep A C) (ce : RszeroError) : Call A C T :=
  ⟨.compensate step, .error ce⟩

/-- The attempts to compensate a step: at most two that fail and one that succeeds, or three that
fail, with the error of the third. -/
inductive Attempts (step : SagaStep A C) : List (Call A C T) → Option RszeroError → Prop
  | success (errors : List RszeroError) (h : errors.length < 3) :
      Attempts step (errors.map (uncompensated step) ++ [compensated step]) none
  | exhausted (e₁ e₂ e₃ : RszeroError) :
      Attempts step [uncompensated step e₁, uncompensated step e₂, uncompensated step e₃] (some e₃)

/-- The steps are compensated in the order of the list; those that are not are reported. -/
inductive Compensations : List (SagaStep A C) → List (Call A C T) → StepErrors → Prop
  | nil : Compensations [] [] []
  | cons {step : SagaStep A C} {steps : List (SagaStep A C)} {block calls : List (Call A C T)}
      {error : Option RszeroError} {errors : StepErrors}
      (h : Attempts step block error) (hrest : Compensations steps calls errors) :
      Compensations (step :: steps) (block ++ calls)
        ((error.map (fun ce => (step.name, ce))).toList ++ errors)

/-- All actions succeed, or the actions before the first one that fails do and their steps are
compensated from the last to the first. -/
inductive ExecutionLaw (steps : List (SagaStep A C)) : List (Call A C T) → SagaResult T → Prop
  | success (outputs : List T) (h : outputs.length = steps.length) :
      ExecutionLaw steps (List.zipWith executed steps outputs)
        ⟨steps.map SagaStep.name, outputs, none, none, []⟩
  | failure (before : List (SagaStep A C)) (step : SagaStep A C) (after : List (SagaStep A C))
      (outputs : List T) (e : RszeroError) (calls : List (Call A C T))
      (errors : StepErrors) (hsteps : steps = before ++ step :: after)
      (h : outputs.length = before.length) (hcomp : Compensations before.reverse calls errors) :
      ExecutionLaw steps (List.zipWith executed before outputs ++ failed step e :: calls)
        ⟨before.map SagaStep.name, outputs, some step.name, some e, errors⟩

/-- Nothing is relied on and nothing is asked of a single call. -/
abbrev Returns {α : Type} (p : Program A C T α) (Q : List (Call A C T) → α → Prop)
    (past : List (Call A C T)) : Prop :=
  p.Ensures (fun _ => True) (fun _ _ => True) Q past

theorem retryCompensation_returns (step : SagaStep A C) (errors : StepErrors)
    (past : List (Call A C T)) :
    Returns (retryCompensation step errors (List.range 3)) (fun past' errors' =>
      ∃ block error, Attempts step block error ∧ past' = past ++ block ∧
        errors' = errors ++ (error.map (fun ce => (step.name, ce))).toList) past := by
  intro ans₁ _
  refine ⟨trivial, ?_⟩
  cases ans₁ with
  | ok => exact ⟨[compensated step], none, .success [] (by simp), rfl, by simp⟩
  | error e₁ =>
  intro ans₂ _
  refine ⟨trivial, ?_⟩
  cases ans₂ with
  | ok => exact ⟨_, none, .success [e₁] (by simp), by simp [compensated, uncompensated], by simp⟩
  | error e₂ =>
  intro ans₃ _
  refine ⟨trivial, ?_⟩
  cases ans₃ with
  | ok =>
      exact ⟨_, none, .success [e₁, e₂] (by simp), by simp [compensated, uncompensated], by simp⟩
  | error e₃ => exact ⟨_, some e₃, .exhausted e₁ e₂ e₃, by simp [uncompensated], by simp⟩

theorem compensateAll_returns (steps before : List (SagaStep A C)) (errors : StepErrors)
    (past : List (Call A C T)) (h : before <+: steps) :
    Returns (compensateAll steps errors (List.range before.length).reverse) (fun past' errors' =>
      ∃ calls new, Compensations before.reverse calls new ∧ past' = past ++ calls ∧
        errors' = errors ++ new) past := by
  induction before using List.reverseRecOn generalizing errors past with
  | nil => exact ⟨[], [], .nil, by simp, by simp⟩
  | append_singleton before step ih =>
      have hstep : steps[before.length]? = some step := by
        obtain ⟨after, rfl⟩ := h
        simp
      have hbefore : before <+: steps := (List.prefix_append ..).trans h
      rw [List.length_append, List.length_singleton, List.range_succ, List.reverse_append]
      simp only [List.reverse_singleton, List.singleton_append, compensateAll, hstep]
      refine (retryCompensation_returns step errors past).bind ?_
      rintro _ _ ⟨block, error, hblock, rfl, rfl⟩
      refine (ih _ (past ++ block) hbefore).imp ?_
      rintro _ _ ⟨calls, new, hcalls, rfl, rfl⟩
      refine ⟨block ++ calls, (error.map (fun ce => (step.name, ce))).toList ++ new, ?_, ?_, ?_⟩
      · rw [List.reverse_append]
        exact .cons hblock hcalls
      · rw [List.append_assoc]
      · rw [List.append_assoc]

theorem executeSteps_returns (before rest : List (SagaStep A C)) (outputs : List T)
    (h : outputs.length = before.length) :
    Returns (executeSteps (before ++ rest) (before.map SagaStep.name) outputs rest)
      (ExecutionLaw (before ++ rest)) (List.zipWith executed before outputs) := by
  induction rest generalizing before outputs with
  | nil =>
      rw [List.append_nil]
      exact .success outputs h
  | cons step rest ih =>
      intro ans _
      refine ⟨trivial, ?_⟩
      cases ans with
      | ok output =>
          have hnext := ih (before ++ [step]) (outputs ++ [output]) (by simp [h])
          rw [List.map_append, List.zipWith_append h.symm, List.append_assoc] at hnext
          exact hnext
      | error e =>
          have hprefix : before <+: before ++ step :: rest := List.prefix_append ..
          have hall := compensateAll_returns (before ++ step :: rest) before []
            (List.zipWith executed before outputs ++ [failed step e]) hprefix
          rw [← List.length_map (f := SagaStep.name)] at hall
          refine CallProgram.Ensures.bind hall ?_
          rintro _ errors ⟨calls, _, hcalls, rfl, rfl⟩
          rw [← List.append_cons]
          exact ExecutionLaw.failure before step rest outputs e calls errors rfl h hcalls

/-- Whatever the actions and the compensations do, the saga ends, with the calls and the result that
the law gives for their answers. -/
theorem execute_follows_law (saga : Saga A C)
    (env : CallProgram.Environment (SagaCall.Answer (A := A) (C := C) T)) :
    ∃ calls result, CallProgram.run env [] saga.execute = (calls, some result) ∧
      ExecutionLaw saga.steps calls result := by
  have hreturns : Returns saga.execute (ExecutionLaw (T := T) saga.steps) [] :=
    executeSteps_returns [] saga.steps [] rfl
  obtain ⟨result, hresult, hlaw⟩ := hreturns.result env (fun _ _ => trivial)
  exact ⟨_, result, Prod.ext rfl hresult, hlaw⟩

end Saga
end Rszero
