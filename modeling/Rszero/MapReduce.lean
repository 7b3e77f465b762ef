import Rszero.Semaphore
import Rszero.TransitionSystem

/-!
# Map-reduce

`map_reduce` spawns a task for each item and awaits their handles in order. The tasks of
`map_reduce_with_concurrency` acquire a permit before they call the mapper, and it is dropped after
the mapper has ended, in whatever way. A step belongs to the caller or to a task, and the scheduler
picks whose it is; the semaphore decides who is admitted.
-/

namespace Rszero.MapReduce

variable {I O R : Type}

inductive MapResult (T : Type)
  | ok (val : T)
  | discard
  | err (e : String)

/-- Why a task has no output. -/
inductive JoinError
  | panic

/-- The output of a task, by what the mapper does with its item. -/
abbrev Output (O : Type) := Except JoinError (MapResult O)

inductive Task (I O : Type)
  | spawned (item : I)
  | acquiring (item : I)
  | mapping (item : I)
  | dropping (output : Output O)
  | finished (output : Output O)

structure State (sem : Semaphore) (I O R : Type) where
  unspawned : List I
  handles : List (Task I O)
  awaited : ℕ
  results : List O
  semaphore : Option sem.State
  returned : Option R

inductive Label
  | caller
  | task (i : ℕ)

variable {sem : Semaphore}

/-- The arms of `match handle.await`. -/
def collect (results : List O) : Output O → List O
  | .ok (.ok val) => results ++ [val]
  | .ok .discard => results
  | .ok (.err _) => results
  | .error _ => results

/-- A task of `map_reduce` has no semaphore. -/
def taskStep (mapper : I → Output O) (i : ℕ) (semaphore : Option sem.State) :
    Task I O → Option (Task I O × Option sem.State)
  | .spawned item =>
      match semaphore with
      | none => some (.mapping item, none)
      | some s => some (.acquiring item, some (sem.acquire s i))
  | .acquiring item =>
      if semaphore.any (fun s => i ∈ sem.held s) then some (.mapping item, semaphore) else none
  | .mapping item => some (.dropping (mapper item), semaphore)
  | .dropping output => some (.finished output, semaphore.map (sem.release · i))
  | .finished _ => none

def callerStep (reducer : List O → R) (s : State sem I O R) : Option (State sem I O R) :=
  match s.unspawned with
  | item :: items => some { s with unspawned := items, handles := s.handles ++ [.spawned item] }
  | [] =>
      if s.returned.isSome then none
      else match s.handles[s.awaited]? with
        | some (.finished output) =>
            some { s with awaited := s.awaited + 1, results := collect s.results output }
        | some _ => none
        | none => some { s with returned := some (reducer s.results) }

def step (mapper : I → Output O) (reducer : List O → R) (s : State sem I O R) :
    Label → Option (State sem I O R)
  | .caller => callerStep reducer s
  | .task i =>
      (s.handles[i]?).bind (fun t =>
        (taskStep mapper i s.semaphore t).map (fun next =>
          { s with handles := s.handles.set i next.1, semaphore := next.2 }))

def system (sem : Semaphore) (mapper : I → Output O) (reducer : List O → R) (items : List I)
    (semaphore : Option sem.State) : TransitionSystem (State sem I O R) Label where
  init := ⟨items, [], 0, [], semaphore, none⟩
  step := step mapper reducer

def mapReduce (sem : Semaphore) (items : List I) (mapper : I → Output O) (reducer : List O → R) :
    TransitionSystem (State sem I O R) Label :=
  system sem mapper reducer items none

/-- `none` is the panic of `Semaphore::new`. -/
def mapReduceWithConcurrency (sem : Semaphore) (items : List I) (mapper : I → Output O)
    (reducer : List O → R) (concurrency : UInt64) :
    Option (TransitionSystem (State sem I O R) Label) :=
  (sem.new concurrency).map (fun s => system sem mapper reducer items (some s))

def Task.isMapping : Task I O → Bool
  | .mapping _ => true
  | _ => false

/-- Task `i` has been spawned, and `p` holds of it. -/
def State.taskIs (s : State sem I O R) (p : Task I O → Bool) (i : ℕ) : Bool :=
  (s.handles[i]?).any p

def State.running (s : State sem I O R) : Finset ℕ :=
  (Finset.range s.handles.length).filter (fun i => s.taskIs Task.isMapping i)

section Steps

variable {mapper : I → Output O} {reducer : List O → R} {s s' : State sem I O R}

theorem taskStep_cases {i : ℕ} {l l' : Option sem.State} {t t' : Task I O}
    (h : taskStep mapper i l t = some (t', l')) :
    (∃ item, t = .spawned item ∧ l = none ∧ t' = .mapping item ∧ l' = none) ∨
      (∃ item p, t = .spawned item ∧ l = some p ∧ t' = .acquiring item ∧
        l' = some (sem.acquire p i)) ∨
      (∃ item p, t = .acquiring item ∧ l = some p ∧ i ∈ sem.held p ∧ t' = .mapping item ∧
        l' = l) ∨
      (∃ item, t = .mapping item ∧ t' = .dropping (mapper item) ∧ l' = l) ∨
      ∃ output, t = .dropping output ∧ t' = .finished output ∧ l' = l.map (sem.release · i) := by
  cases t with
  | spawned item =>
      cases l with
      | none =>
          cases h
          exact .inl ⟨item, rfl, rfl, rfl, rfl⟩
      | some p =>
          cases h
          exact .inr (.inl ⟨item, p, rfl, rfl, rfl, rfl⟩)
  | acquiring item =>
      cases l with
      | none => cases h
      | some p =>
          rw [taskStep, Option.any_some] at h
          split_ifs at h with hheld
          cases h
          exact .inr (.inr (.inl ⟨item, p, rfl, rfl, of_decide_eq_true hheld, rfl, rfl⟩))
  | mapping item =>
      cases h
      exact .inr (.inr (.inr (.inl ⟨item, rfl, rfl, rfl⟩)))
  | dropping output =>
      cases h
      exact .inr (.inr (.inr (.inr ⟨output, rfl, rfl, rfl⟩)))
  | finished output => cases h

theorem callerStep_cases (h : callerStep reducer s = some s') :
    (∃ item, s.unspawned = item :: s'.unspawned ∧
      s' = { s with unspawned := s'.unspawned, handles := s.handles ++ [.spawned item] }) ∨
      (∃ output, s.handles[s.awaited]? = some (.finished output) ∧ s.returned = none ∧
        s' = { s with awaited := s.awaited + 1, results := collect s.results output }) ∨
      s.unspawned = [] ∧ s.handles[s.awaited]? = none ∧ s.returned = none ∧
        s' = { s with returned := some (reducer s.results) } := by
  unfold callerStep at h
  split at h
  · rename_i item items hitems
    cases h
    exact .inl ⟨item, hitems, rfl⟩
  · rename_i hitems
    split_ifs at h with hreturned
    have hnone := Option.not_isSome_iff_eq_none.1 hreturned
    split at h
    · rename_i output houtput
      cases h
      exact .inr (.inl ⟨output, houtput, hnone, rfl⟩)
    · cases h
    · rename_i hhandle
      cases h
      exact .inr (.inr ⟨hitems, hhandle, hnone, rfl⟩)

theorem step_task_eq_some {i : ℕ} :
    step mapper reducer s (.task i) = some s' ↔
      ∃ t t' l', s.handles[i]? = some t ∧ taskStep mapper i s.semaphore t = some (t', l') ∧
        s' = { s with handles := s.handles.set i t', semaphore := l' } := by
  simp only [step, Option.bind_eq_some_iff, Option.map_eq_some_iff, Prod.exists]
  constructor
  · rintro ⟨t, ht, t', l', hstep, rfl⟩
    exact ⟨t, t', l', ht, hstep, rfl⟩
  · rintro ⟨t, t', l', ht, hstep, rfl⟩
    exact ⟨t, ht, t', l', hstep, rfl⟩

theorem taskIs_concat (s : State sem I O R) {p : Task I O → Bool} {t : Task I O}
    (ht : p t = false) (items : List I) (i : ℕ) :
    ({ s with unspawned := items, handles := s.handles ++ [t] } : State sem I O R).taskIs p i =
      s.taskIs p i := by
  change ((s.handles ++ [t])[i]?).any p = (s.handles[i]?).any p
  rcases Nat.lt_or_ge i s.handles.length with hlt | hge
  · rw [List.getElem?_append_left hlt]
  · rw [List.getElem?_append_right hge, List.getElem?_eq_none hge]
    cases i - s.handles.length <;> simp [ht]

theorem taskIs_set {i : ℕ} {t t' : Task I O} (h : s.handles[i]? = some t)
    (l' : Option sem.State) (p : Task I O → Bool) (j : ℕ) :
    ({ s with handles := s.handles.set i t', semaphore := l' } : State sem I O R).taskIs p j =
      if j = i then p t' else s.taskIs p j := by
  change ((s.handles.set i t')[j]?).any p = if j = i then p t' else (s.handles[j]?).any p
  obtain ⟨hi, -⟩ := List.getElem?_eq_some_iff.1 h
  split_ifs with hj
  · rw [hj, List.getElem?_set_self hi, Option.any_some]
  · rw [List.getElem?_set_ne (Ne.symm hj)]

theorem taskIs_of_getElem? {i : ℕ} {t : Task I O} (h : s.handles[i]? = some t)
    (p : Task I O → Bool) : s.taskIs p i = p t := by
  rw [State.taskIs, h, Option.any_some]

theorem exists_of_taskIs {p : Task I O → Bool} {i : ℕ} (h : s.taskIs p i) :
    ∃ t, s.handles[i]? = some t ∧ p t :=
  (Option.any_eq_true p _).1 h

end Steps

end Rszero.MapReduce
