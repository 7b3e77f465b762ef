import Mathlib.Algebra.BigOperators.Group.List.Basic
import Mathlib.Algebra.Order.Ring.Nat
import Rszero.Completion

/-!
# Fork and join

A caller spawns a task for each of its futures, then awaits the handles in their order and folds
the outputs, which may end it early. The tasks finish in any order, also while the caller still
spawns and after it has returned. Every schedule ends with the fold of the outputs in the order of
the futures.
-/

namespace Rszero.ForkJoin

open TransitionSystem

variable {ω α ρ : Type}

inductive Task (ω : Type)
  | running (output : ω)
  | finished (output : ω)

namespace Task

def output : Task ω → ω
  | .running output | .finished output => output

def rest : Task ω → ℕ
  | .running _ => 1
  | .finished _ => 0

end Task

/-- What the caller does with the outputs: it goes on with what it has collected, or it returns. -/
structure Join (ω α ρ : Type) where
  start : α
  next : α → ω → α ⊕ ρ
  finish : α → ρ

def Join.value (join : Join ω α ρ) : α → List ω → ρ
  | collected, [] => join.finish collected
  | collected, output :: outputs =>
      match join.next collected output with
      | .inl collected => join.value collected outputs
      | .inr r => r

structure State (ω α ρ : Type) where
  unspawned : List ω
  handles : List (Task ω)
  awaited : ℕ
  collected : α
  returned : Option ρ

inductive Label
  | caller
  | task (i : ℕ)

def callerStep (join : Join ω α ρ) (s : State ω α ρ) : Option (State ω α ρ) :=
  match s.unspawned with
  | future :: futures =>
      some { s with unspawned := futures, handles := s.handles ++ [.running future] }
  | [] =>
      if s.returned.isSome then none
      else match s.handles[s.awaited]? with
        | some (.finished output) =>
            match join.next s.collected output with
            | .inl collected => some { s with awaited := s.awaited + 1, collected := collected }
            | .inr r => some { s with returned := some r }
        | some (.running _) => none
        | none => some { s with returned := some (join.finish s.collected) }

def step (join : Join ω α ρ) (s : State ω α ρ) : Label → Option (State ω α ρ)
  | .caller => callerStep join s
  | .task i =>
      match s.handles[i]? with
      | some (.running output) => some { s with handles := s.handles.set i (.finished output) }
      | _ => none

def system (join : Join ω α ρ) (futures : List ω) : TransitionSystem (State ω α ρ) Label where
  init := ⟨futures, [], 0, join.start, none⟩
  step := step join

variable {join : Join ω α ρ} {futures : List ω} {s s' : State ω α ρ} {a : Label}

theorem callerStep_cases (h : callerStep join s = some s') :
    (∃ future, s.unspawned = future :: s'.unspawned ∧
      s' = { s with unspawned := s'.unspawned, handles := s.handles ++ [.running future] }) ∨
      s.unspawned = [] ∧ s.returned = none ∧
        ((∃ output, s.handles[s.awaited]? = some (.finished output) ∧
          ((∃ collected, join.next s.collected output = .inl collected ∧
            s' = { s with awaited := s.awaited + 1, collected := collected }) ∨
            ∃ r, join.next s.collected output = .inr r ∧ s' = { s with returned := some r })) ∨
          s.handles[s.awaited]? = none ∧
            s' = { s with returned := some (join.finish s.collected) }) := by
  unfold callerStep at h
  split at h
  · rename_i future futures hunspawned
    cases h
    exact .inl ⟨future, hunspawned, rfl⟩
  · rename_i hunspawned
    split_ifs at h with hreturned
    refine .inr ⟨hunspawned, Option.not_isSome_iff_eq_none.1 hreturned, ?_⟩
    split at h
    · rename_i output houtput
      split at h
      · rename_i collected hnext
        cases h
        exact .inl ⟨output, houtput, .inl ⟨collected, hnext, rfl⟩⟩
      · rename_i r hnext
        cases h
        exact .inl ⟨output, houtput, .inr ⟨r, hnext, rfl⟩⟩
    · cases h
    · rename_i hhandle
      cases h
      exact .inr ⟨hhandle, rfl⟩

theorem taskStep_cases {i : ℕ} (h : step join s (.task i) = some s') :
    ∃ output, s.handles[i]? = some (.running output) ∧
      s' = { s with handles := s.handles.set i (.finished output) } := by
  rw [step] at h
  split at h
  · rename_i output houtput
    cases h
    exact ⟨output, houtput, rfl⟩
  · cases h

def State.rest (s : State ω α ρ) : ℕ :=
  (s.handles.map Task.rest).sum + (s.handles.length - s.awaited) + 3 * s.unspawned.length +
    (if s.returned.isSome then 0 else 1)

theorem rest_step (h : step join s a = some s') : s'.rest < s.rest := by
  cases a with
  | caller =>
      rcases callerStep_cases h with ⟨future, hunspawned, hs⟩ | ⟨-, hnone, hcases⟩
      · rw [hs]
        simp only [State.rest, hunspawned, List.map_append, List.sum_append, List.length_append,
          List.length_cons, List.map_cons, List.map_nil, List.sum_cons, List.sum_nil,
          List.length_nil, Task.rest]
        omega
      · rcases hcases with ⟨output, houtput, ⟨collected, -, rfl⟩ | ⟨r, -, rfl⟩⟩ | ⟨-, rfl⟩
        · obtain ⟨hlt, -⟩ := List.getElem?_eq_some_iff.1 houtput
          simp only [State.rest]
          omega
        · simp [State.rest, hnone]
        · simp [State.rest, hnone]
  | task i =>
      obtain ⟨output, houtput, rfl⟩ := taskStep_cases h
      have hsum := sum_map_set Task.rest houtput (.finished output)
      simp only [Task.rest] at hsum
      simp only [State.rest, List.length_set]
      omega

/-- What is collected, with the outputs that are still to come, has the value of all outputs. -/
structure Ordered (join : Join ω α ρ) (futures : List ω) (s : State ω α ρ) : Prop where
  outputs : s.handles.map Task.output ++ s.unspawned = futures
  collected : s.returned = none →
    join.value s.collected (futures.drop s.awaited) = join.value join.start futures
  returned : ∀ r, s.returned = some r → r = join.value join.start futures

theorem ordered_init : Ordered join futures (system join futures).init :=
  ⟨rfl, fun _ => rfl, nofun⟩

theorem Ordered.getElem?_handles (hs : Ordered join futures s) {i : ℕ} {t : Task ω}
    (ht : s.handles[i]? = some t) : futures[i]? = some t.output := by
  obtain ⟨hlt, -⟩ := List.getElem?_eq_some_iff.1 ht
  rw [← hs.outputs, List.getElem?_append_left (by rwa [List.length_map]), List.getElem?_map, ht]
  rfl

theorem Ordered.callerStep (hs : Ordered join futures s) (h : callerStep join s = some s') :
    Ordered join futures s' := by
  rcases callerStep_cases h with ⟨future, hunspawned, hs'⟩ | ⟨hunspawned, hnone, hcases⟩
  · rw [hs']
    refine ⟨?_, hs.collected, hs.returned⟩
    rw [← hs.outputs, hunspawned]
    simp [Task.output]
  · have hvalue := hs.collected hnone
    rcases hcases with ⟨output, houtput, hnext⟩ | ⟨hhandle, rfl⟩
    · have hdrop : futures.drop s.awaited = output :: futures.drop (s.awaited + 1) := by
        obtain ⟨hlt, hget⟩ := List.getElem?_eq_some_iff.1 (hs.getElem?_handles houtput)
        rw [List.drop_eq_getElem_cons hlt, hget]
        rfl
      rw [hdrop, Join.value] at hvalue
      rcases hnext with ⟨collected, hnext, rfl⟩ | ⟨r, hnext, rfl⟩
      · rw [hnext] at hvalue
        exact ⟨hs.outputs, fun _ => hvalue, fun r hr => absurd (hnone.symm.trans hr) nofun⟩
      · rw [hnext] at hvalue
        exact ⟨hs.outputs, nofun, fun r' hr => Option.some.inj hr ▸ hvalue⟩
    · refine ⟨hs.outputs, nofun, fun r hr => ?_⟩
      have hlength : s.handles.length = futures.length := by
        rw [← hs.outputs, hunspawned, List.append_nil, List.length_map]
      have hle : s.handles.length ≤ s.awaited := List.getElem?_eq_none_iff.1 hhandle
      rw [List.drop_of_length_le (hlength ▸ hle), Join.value] at hvalue
      exact (Option.some.inj hr).symm.trans hvalue

theorem Ordered.step (hs : Ordered join futures s) (h : step join s a = some s') :
    Ordered join futures s' := by
  cases a with
  | caller => exact hs.callerStep h
  | task i =>
      obtain ⟨output, houtput, rfl⟩ := taskStep_cases h
      refine ⟨?_, hs.collected, hs.returned⟩
      have hsame : (Task.finished output).output = (Task.running output).output := rfl
      rw [← hs.outputs, map_set_eq _ houtput hsame]

theorem returned_of_final (hfinal : ∀ a, step join s a = none) : ∃ r, s.returned = some r := by
  have hcaller : callerStep join s = none := hfinal .caller
  unfold callerStep at hcaller
  split at hcaller
  · cases hcaller
  · split_ifs at hcaller with hreturned
    · exact Option.isSome_iff_exists.1 hreturned
    · split at hcaller
      · split at hcaller <;> cases hcaller
      · rename_i output houtput
        -- the awaited task can still finish
        have htask := hfinal (.task s.awaited)
        rw [ForkJoin.step, houtput] at htask
        cases htask
      · cases hcaller

/-- Whatever the order in which the tasks finish, the caller returns the fold of the outputs in the
order of the futures. -/
theorem system_completes (join : Join ω α ρ) (futures : List ω) :
    (system join futures).Completes
      (fun s => s.returned = some (join.value join.start futures)) := by
  refine completes_of_measure (m := State.rest) (I := Ordered join futures)
    (fun _ _ _ => rest_step) ordered_init (fun s a s' hs h => hs.step h) ?_
  intro s hs hfinal
  obtain ⟨r, hr⟩ := returned_of_final hfinal
  rw [hr, hs.returned r hr]

end Rszero.ForkJoin
