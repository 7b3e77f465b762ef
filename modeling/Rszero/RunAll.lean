import Rszero.ForkJoin
import Rszero.MapReduceRuns

/-!
# Parallel collection

`run_all` keeps what the tasks that did not panic returned, and `run_all_err` returns early on an
error and panics with a task. Neither depends on the order in which the tasks finish, and neither
does `map_reduce`.
-/

namespace Rszero.MapReduce

open TransitionSystem

variable {T E : Type}

abbrev Future (T : Type) := Except JoinError T

inductive Ending (R : Type)
  | returned (r : R)
  | panicked

/-- The loop over the handles in `run_all`. -/
def pushOk : ForkJoin.Join (Future T) (List T) (List T) where
  start := []
  next results
    | .ok val => .inl (results ++ [val])
    | .error _ => .inl results
  finish results := results

/-- The loop over the handles in `run_all_err`. -/
def pushOrReturn :
    ForkJoin.Join (Future (Except E T)) (List T) (Ending (Except E (List T))) where
  start := []
  next results
    | .ok (.ok val) => .inl (results ++ [val])
    | .ok (.error e) => .inr (.returned (.error e))
    | .error _ => .inr .panicked
  finish results := .returned (.ok results)

def runAll (futures : List (Future T)) :
    TransitionSystem (ForkJoin.State (Future T) (List T) (List T)) ForkJoin.Label :=
  ForkJoin.system pushOk futures

def runAllErr (futures : List (Future (Except E T))) :
    TransitionSystem (ForkJoin.State (Future (Except E T)) (List T) (Ending (Except E (List T))))
      ForkJoin.Label :=
  ForkJoin.system pushOrReturn futures

theorem value_pushOk (results : List T) (futures : List (Future T)) :
    pushOk.value results futures = results ++ futures.filterMap Except.toOption := by
  induction futures generalizing results with
  | nil => exact (List.append_nil results).symm
  | cons future futures ih =>
      cases future with
      | ok val =>
          have hval : (.ok val :: futures).filterMap Except.toOption =
              val :: futures.filterMap Except.toOption := rfl
          rw [hval, List.append_cons]
          exact ih (results ++ [val])
      | error e => exact ih results

def error? : Except E T → Option E
  | .ok _ => none
  | .error e => some e

def firstError (outputs : List (Except E T)) : Except E (List T) :=
  match outputs.findSome? error? with
  | some e => .error e
  | none => .ok (outputs.filterMap Except.toOption)

theorem firstError_ok (val : T) (outputs : List (Except E T)) :
    firstError (.ok val :: outputs) = (firstError outputs).map (val :: ·) := by
  have hfind : (.ok val :: outputs).findSome? error? = outputs.findSome? error? := rfl
  rw [firstError, firstError, hfind]
  cases outputs.findSome? error? with
  | none => rfl
  | some e => rfl

theorem pushOrReturn_start : (pushOrReturn : ForkJoin.Join (Future (Except E T)) _ _).start = [] :=
  rfl

theorem value_pushOrReturn (results : List T) (outputs : List (Except E T)) :
    pushOrReturn.value results (outputs.map .ok) =
      .returned ((firstError outputs).map (results ++ ·)) := by
  induction outputs generalizing results with
  | nil =>
      have hnil : (firstError ([] : List (Except E T))).map (results ++ ·) = .ok results :=
        congrArg Except.ok (List.append_nil results)
      rw [hnil]
      rfl
  | cons output outputs ih =>
      cases output with
      | error e => rfl
      | ok val =>
          have hpush := ih (results ++ [val])
          rw [firstError_ok]
          refine hpush.trans ?_
          cases firstError outputs with
          | error e => rfl
          | ok vals =>
              simp only [Except.map]
              rw [← List.append_cons]

theorem runAll_completes (futures : List (Future T)) :
    (runAll futures).Completes
      (fun s => s.returned = some (futures.filterMap Except.toOption)) := by
  have hcompletes := ForkJoin.system_completes pushOk futures
  rwa [value_pushOk] at hcompletes

theorem runAllErr_completes (outputs : List (Except E T)) :
    (runAllErr (outputs.map .ok)).Completes
      (fun s => s.returned = some (.returned (firstError outputs))) := by
  have hcompletes := ForkJoin.system_completes pushOrReturn (outputs.map .ok)
  have hstart : (firstError outputs).map ([] ++ ·) = firstError outputs := by
    cases firstError outputs <;> rfl
  rwa [pushOrReturn_start, value_pushOrReturn, hstart] at hcompletes

/-- Every schedule of the tasks ends with the results in input order. -/
theorem collection_in_order (sem : Semaphore) {I O R : Type} (items : List I)
    (mapper : I → Output O) (reducer : List O → R) (futures : List (Future T))
    (outputs : List (Except E T)) :
    (runAll futures).Completes
        (fun s => s.returned = some (futures.filterMap Except.toOption)) ∧
      (mapReduce sem items mapper reducer).Completes
        (fun s => s.returned = some (reducer ((items.map mapper).filterMap okValue))) ∧
      (runAllErr (outputs.map .ok)).Completes
        (fun s => s.returned = some (.returned (firstError outputs))) :=
  ⟨runAll_completes futures, mapReduce_completes sem items mapper reducer,
    runAllErr_completes outputs⟩

end Rszero.MapReduce
