import Mathlib.Algebra.BigOperators.Group.List.Basic
import Mathlib.Algebra.Order.Ring.Nat
import Rszero.Completion
import Rszero.MapReduce

/-!
# Bounded and unbounded map-reduce

Every schedule of `map_reduce` ends with the reducer's value of the `Ok` values in item order. So
does every schedule of `map_reduce_with_concurrency`, unless the semaphore has no permit to give or
more than a semaphore may have.
-/

namespace Rszero.MapReduce

open TransitionSystem

variable {I O R : Type} {sem : Semaphore} {mapper : I → Output O} {reducer : List O → R}
  {items : List I} {s s' : State sem I O R} {a : Label}

def okValue : Output O → Option O
  | .ok (.ok val) => some val
  | _ => none

/-- The reducer applied to the `Ok` values in item order. -/
def value (mapper : I → Output O) (reducer : List O → R) (items : List I) : R :=
  reducer ((items.map mapper).filterMap okValue)

theorem collect_eq (results : List O) (output : Output O) :
    collect results output = results ++ (okValue output).toList := by
  cases output with
  | error e => exact (List.append_nil results).symm
  | ok result =>
      cases result with
      | ok val => rfl
      | discard => exact (List.append_nil results).symm
      | err e => exact (List.append_nil results).symm

namespace Task

def output (mapper : I → Output O) : Task I O → Output O
  | .spawned item | .acquiring item | .mapping item => mapper item
  | .dropping output | .finished output => output

def isAcquiring : Task I O → Bool
  | .acquiring _ => true
  | _ => false

def isAdmitted : Task I O → Bool
  | .mapping _ | .dropping _ => true
  | _ => false

def isStarted : Task I O → Bool
  | .mapping _ | .dropping _ | .finished _ => true
  | _ => false

theorem isAdmitted_of_isMapping {t : Task I O} (h : t.isMapping) : t.isAdmitted := by
  cases t with
  | mapping item => rfl
  | spawned item => cases h
  | acquiring item => cases h
  | dropping output => cases h
  | finished output => cases h

def rest : Task I O → ℕ
  | .spawned _ => 4
  | .acquiring _ => 3
  | .mapping _ => 2
  | .dropping _ => 1
  | .finished _ => 0

end Task

theorem taskStep_output {i : ℕ} {l l' : Option sem.State} {t t' : Task I O}
    (h : taskStep mapper i l t = some (t', l')) : t'.output mapper = t.output mapper := by
  rcases taskStep_cases h with ⟨item, rfl, -, rfl, -⟩ | ⟨item, p, rfl, -, rfl, -⟩ |
    ⟨item, p, rfl, -, -, rfl, -⟩ | ⟨item, rfl, rfl, -⟩ | ⟨output, rfl, rfl, -⟩
  all_goals rfl

theorem taskStep_rest {i : ℕ} {l l' : Option sem.State} {t t' : Task I O}
    (h : taskStep mapper i l t = some (t', l')) : t'.rest < t.rest := by
  rcases taskStep_cases h with ⟨item, rfl, -, rfl, -⟩ | ⟨item, p, rfl, -, rfl, -⟩ |
    ⟨item, p, rfl, -, -, rfl, -⟩ | ⟨item, rfl, rfl, -⟩ | ⟨output, rfl, rfl, -⟩
  all_goals
    simp only [Task.rest]
    omega

def State.rest (s : State sem I O R) : ℕ :=
  (s.handles.map Task.rest).sum + (s.handles.length - s.awaited) + 6 * s.unspawned.length +
    (if s.returned.isSome then 0 else 1)

theorem rest_step (h : step mapper reducer s a = some s') : s'.rest < s.rest := by
  cases a with
  | caller =>
      rcases callerStep_cases h with ⟨item, hitems, hs⟩ | ⟨output, houtput, -, rfl⟩ |
        ⟨-, -, hnone, rfl⟩
      · rw [hs]
        simp only [State.rest, hitems, List.map_append, List.sum_append, List.length_append,
          List.length_cons, List.map_cons, List.map_nil, List.sum_cons, List.sum_nil,
          List.length_nil, Task.rest]
        omega
      · obtain ⟨hlt, -⟩ := List.getElem?_eq_some_iff.1 houtput
        simp only [State.rest]
        omega
      · simp only [State.rest, hnone, Option.isSome_some, Option.isSome_none]
        simp
  | task i =>
      obtain ⟨t, t', l', ht, hstep, rfl⟩ := step_task_eq_some.1 h
      have hsum := sum_map_set Task.rest ht t'
      have hlt := taskStep_rest hstep
      simp only [State.rest, List.length_set]
      omega

structure Ordered (mapper : I → Output O) (reducer : List O → R) (items : List I)
    (s : State sem I O R) : Prop where
  outputs : s.handles.map (Task.output mapper) ++ s.unspawned.map mapper = items.map mapper
  results : s.results = ((items.map mapper).take s.awaited).filterMap okValue
  returned : ∀ r, s.returned = some r → r = value mapper reducer items

theorem ordered_init (semaphore : Option sem.State) :
    Ordered mapper reducer items (system sem mapper reducer items semaphore).init :=
  ⟨rfl, rfl, nofun⟩

theorem Ordered.step (hs : Ordered mapper reducer items s)
    (h : step mapper reducer s a = some s') : Ordered mapper reducer items s' := by
  cases a with
  | caller =>
      rcases callerStep_cases h with ⟨item, hitems, hs'⟩ | ⟨output, houtput, -, rfl⟩ |
        ⟨hitems, hhandle, -, rfl⟩
      · rw [hs']
        refine ⟨?_, hs.results, hs.returned⟩
        rw [← hs.outputs, hitems]
        simp [Task.output]
      · refine ⟨hs.outputs, ?_, hs.returned⟩
        obtain ⟨hlt, hget⟩ := List.getElem?_eq_some_iff.1 houtput
        have hnext : (items.map mapper)[s.awaited]? = some output := by
          rw [← hs.outputs, List.getElem?_append_left (by rwa [List.length_map]),
            List.getElem?_map, houtput]
          rfl
        rw [collect_eq, hs.results, List.take_add_one, hnext, List.filterMap_append]
        cases hok : okValue output <;> simp [hok]
      · refine ⟨hs.outputs, hs.results, fun r hr => ?_⟩
        have hlength := congrArg List.length hs.outputs
        have hle : s.handles.length ≤ s.awaited := List.getElem?_eq_none_iff.1 hhandle
        rw [hitems, List.map_nil, List.append_nil, List.length_map] at hlength
        rw [← Option.some.inj hr, value, hs.results, List.take_of_length_le (by omega)]
  | task i =>
      obtain ⟨t, t', l', ht, hstep, rfl⟩ := step_task_eq_some.1 h
      refine ⟨?_, hs.results, hs.returned⟩
      rw [← hs.outputs, map_set_eq _ ht (taskStep_output hstep)]

theorem taskStep_eq_none {i : ℕ} {l : Option sem.State} {t : Task I O}
    (h : taskStep mapper i l t = none) :
    (∃ item, t = .acquiring item ∧ ∀ p, l = some p → i ∉ sem.held p) ∨
      ∃ output, t = .finished output := by
  cases t with
  | spawned item => cases l <;> cases h
  | acquiring item =>
      refine .inl ⟨item, rfl, fun p hp hheld => ?_⟩
      rw [hp, taskStep, Option.any_some, if_pos (decide_eq_true hheld)] at h
      cases h
  | mapping item => cases h
  | dropping output => cases h
  | finished output => exact .inr ⟨output, rfl⟩

theorem callerStep_eq_none (h : callerStep reducer s = none) :
    (∃ r, s.returned = some r) ∨
      ∃ t, s.handles[s.awaited]? = some t ∧ ∀ output, t ≠ .finished output := by
  unfold callerStep at h
  split at h
  · cases h
  · split_ifs at h with hreturned
    · exact .inl (Option.isSome_iff_exists.1 hreturned)
    · split at h
      · cases h
      · rename_i t hunfinished ht
        exact .inr ⟨t, ht, fun output houtput => hunfinished output houtput⟩
      · cases h

/-- What keeps a task from going on in a final state is its request. -/
theorem task_of_final (hfinal : ∀ a, step mapper reducer s a = none) {i : ℕ} {t : Task I O}
    (ht : s.handles[i]? = some t) :
    (∃ item, t = .acquiring item ∧ ∀ p, s.semaphore = some p → i ∉ sem.held p) ∨
      ∃ output, t = .finished output := by
  have hnone := hfinal (.task i)
  rw [step, ht, Option.bind_some, Option.map_eq_none_iff] at hnone
  exact taskStep_eq_none hnone

/-- Only a task that awaits its permit can keep the caller waiting. -/
theorem returned_of_final (hfinal : ∀ a, step mapper reducer s a = none)
    (hacquiring : ∀ i, s.taskIs Task.isAcquiring i = false) : ∃ r, s.returned = some r := by
  rcases callerStep_eq_none (hfinal .caller) with hreturned | ⟨t, ht, hunfinished⟩
  · exact hreturned
  · rcases task_of_final hfinal ht with ⟨item, rfl, -⟩ | ⟨output, rfl⟩
    · have hwaits := taskIs_of_getElem? ht Task.isAcquiring
      rw [hacquiring] at hwaits
      cases hwaits
    · exact absurd rfl (hunfinished output)

structure Unlimited (s : State sem I O R) : Prop where
  semaphore : s.semaphore = none
  tasks : ∀ i, s.taskIs Task.isAcquiring i = false

theorem unlimited_init (items : List I) :
    Unlimited (mapReduce sem items mapper reducer).init :=
  ⟨rfl, fun _ => rfl⟩

theorem Unlimited.step (hs : Unlimited s) (h : step mapper reducer s a = some s') :
    Unlimited s' := by
  cases a with
  | caller =>
      rcases callerStep_cases h with ⟨item, -, hs'⟩ | ⟨output, -, -, rfl⟩ | ⟨-, -, -, rfl⟩
      · rw [hs']
        exact ⟨hs.semaphore, fun i => (taskIs_concat s rfl _ i).trans (hs.tasks i)⟩
      · exact ⟨hs.semaphore, hs.tasks⟩
      · exact ⟨hs.semaphore, hs.tasks⟩
  | task i =>
      obtain ⟨t, t', l', ht, hstep, rfl⟩ := step_task_eq_some.1 h
      have hnext : l' = none ∧ t'.isAcquiring = false := by
        rw [hs.semaphore] at hstep
        rcases taskStep_cases hstep with ⟨item, -, -, rfl, rfl⟩ | ⟨item, p, -, hp, -, -⟩ |
          ⟨item, p, -, hp, -, -, -⟩ | ⟨item, -, rfl, rfl⟩ | ⟨output, -, rfl, rfl⟩
        · exact ⟨rfl, rfl⟩
        · cases hp
        · cases hp
        · exact ⟨rfl, rfl⟩
        · exact ⟨rfl, rfl⟩
      refine ⟨hnext.1, fun j => ?_⟩
      rw [taskIs_set ht, hnext.2, hs.tasks j, ite_self]

theorem mapReduce_completes (sem : Semaphore) (items : List I) (mapper : I → Output O)
    (reducer : List O → R) :
    (mapReduce sem items mapper reducer).Completes
      (fun s => s.returned = some (value mapper reducer items)) := by
  refine completes_of_measure (m := State.rest)
    (I := fun s => Ordered mapper reducer items s ∧ Unlimited s) (fun _ _ _ => rest_step)
    ⟨ordered_init none, unlimited_init items⟩ (fun s a s' hs h => ⟨hs.1.step h, hs.2.step h⟩) ?_
  intro s hs hfinal
  obtain ⟨r, hr⟩ := returned_of_final hfinal hs.2.tasks
  rw [hr, hs.1.returned r hr]

/-- The requests are those of the tasks that await their permit or got past it, and a task that got
past has its permit. -/
structure Limited (permits : ℕ) (p : sem.State) (s : State sem I O R) : Prop where
  semaphore : s.semaphore = some p
  permits : sem.permits p = permits
  requests : ∀ i, i ∈ sem.held p ∪ sem.awaited p ↔
    s.taskIs Task.isAcquiring i ∨ s.taskIs Task.isAdmitted i
  held : ∀ i, s.taskIs Task.isAdmitted i → i ∈ sem.held p

variable {permits : ℕ} {p : sem.State}

theorem limited_init {concurrency : UInt64} (hp : sem.new concurrency = some p) (items : List I) :
    Limited concurrency.toNat p (system sem mapper reducer items (some p)).init where
  semaphore := rfl
  permits := sem.permits_new hp
  requests := fun i => by
    rw [sem.idle_new hp]
    exact iff_of_false (Finset.notMem_empty i) (fun h => by rcases h with h | h <;> cases h)
  held := nofun

theorem Limited.running_le (hs : Limited permits p s) : s.running.card ≤ permits := by
  rw [← hs.permits]
  refine (Finset.card_le_card fun i hi => hs.held i ?_).trans (sem.card_held_le p)
  obtain ⟨-, hmapping⟩ := Finset.mem_filter.1 hi
  obtain ⟨t, ht, hm⟩ := exists_of_taskIs hmapping
  rw [taskIs_of_getElem? ht]
  exact Task.isAdmitted_of_isMapping hm

/-- A step of the caller neither asks for a permit nor gives one back. -/
theorem Limited.callerStep (hs : Limited permits p s) (h : callerStep reducer s = some s') :
    Limited permits p s' := by
  rcases callerStep_cases h with ⟨item, -, hs'⟩ | ⟨output, -, -, rfl⟩ | ⟨-, -, -, rfl⟩
  · rw [hs']
    refine ⟨hs.semaphore, hs.permits, fun i => ?_, fun i hi => hs.held i ?_⟩
    · rw [taskIs_concat s rfl, taskIs_concat s rfl]
      exact hs.requests i
    · rwa [taskIs_concat s rfl] at hi
  · exact ⟨hs.semaphore, hs.permits, hs.requests, hs.held⟩
  · exact ⟨hs.semaphore, hs.permits, hs.requests, hs.held⟩

/-- A step of a task keeps the invariant if it changes the requests as it changes the task. -/
theorem Limited.setTask (hs : Limited permits p s) {i : ℕ} {t t' : Task I O} {p' : sem.State}
    (ht : s.handles[i]? = some t) (hpermits : sem.permits p' = sem.permits p)
    (hrequests : ∀ j, j ∈ sem.held p' ∪ sem.awaited p' ↔
      if j = i then t'.isAcquiring ∨ t'.isAdmitted else j ∈ sem.held p ∪ sem.awaited p)
    (hheld : ∀ j, j ≠ i → j ∈ sem.held p → j ∈ sem.held p')
    (hadmitted : t'.isAdmitted → i ∈ sem.held p') :
    Limited permits p'
      ({ s with handles := s.handles.set i t', semaphore := some p' } : State sem I O R) where
  semaphore := rfl
  permits := hpermits.trans hs.permits
  requests := fun j => by
    rw [hrequests, taskIs_set ht, taskIs_set ht]
    split_ifs
    · exact Iff.rfl
    · exact hs.requests j
  held := fun j hj => by
    rw [taskIs_set ht] at hj
    split_ifs at hj with hji
    · exact hji ▸ hadmitted hj
    · exact hheld j hji (hs.held j hj)

theorem Limited.taskStep (hs : Limited permits p s) {i : ℕ} {t t' : Task I O}
    {l' : Option sem.State} (ht : s.handles[i]? = some t)
    (h : taskStep mapper i s.semaphore t = some (t', l')) :
    ∃ p', Limited permits p'
      ({ s with handles := s.handles.set i t', semaphore := l' } : State sem I O R) := by
  have hasked : i ∈ sem.held p ∪ sem.awaited p ↔ t.isAcquiring ∨ t.isAdmitted := by
    rw [hs.requests, taskIs_of_getElem? ht, taskIs_of_getElem? ht]
  have hhas (hadmitted : t.isAdmitted) : i ∈ sem.held p :=
    hs.held i ((taskIs_of_getElem? ht _).trans hadmitted)
  rw [hs.semaphore] at h
  rcases taskStep_cases h with ⟨item, -, hp, -, -⟩ | ⟨item, q, rfl, hq, rfl, rfl⟩ |
    ⟨item, q, rfl, hq, hheld, rfl, rfl⟩ | ⟨item, rfl, rfl, rfl⟩ | ⟨output, rfl, rfl, rfl⟩
  · cases hp
  · obtain rfl := Option.some.inj hq
    have hnew : i ∉ sem.held p ∪ sem.awaited p := fun hi => by
      rcases hasked.1 hi with h | h <;> cases h
    refine ⟨_, hs.setTask ht (sem.permits_acquire p i) (fun j => ?_)
      (fun j _ hj => sem.held_acquire hnew hj) nofun⟩
    rw [sem.acquire_requests hnew, Finset.mem_insert]
    split_ifs with hji
    · exact iff_of_true (.inl hji) (.inl rfl)
    · exact or_iff_right hji
  · obtain rfl := Option.some.inj hq
    refine ⟨_, hs.setTask ht rfl (fun j => ?_) (fun _ _ hj => hj) (fun _ => hheld)⟩
    split_ifs with hji
    · exact iff_of_true (hji ▸ hasked.2 (.inl rfl)) (.inr rfl)
    · exact Iff.rfl
  · refine ⟨_, hs.setTask ht rfl (fun j => ?_) (fun _ _ hj => hj) (fun _ => hhas rfl)⟩
    split_ifs with hji
    · exact iff_of_true (hji ▸ hasked.2 (.inr rfl)) (.inr rfl)
    · exact Iff.rfl
  · refine ⟨_, hs.setTask ht (sem.permits_release p i) (fun j => ?_)
      (fun j hji hj => sem.held_release (hhas rfl) (Finset.mem_erase.2 ⟨hji, hj⟩)) nofun⟩
    rw [sem.release_requests (hhas rfl), Finset.mem_erase]
    split_ifs with hji
    · exact iff_of_false (fun h => h.1 hji) (fun h => by rcases h with h | h <;> cases h)
    · exact and_iff_right hji

theorem Limited.step (hs : Limited permits p s) (h : step mapper reducer s a = some s') :
    ∃ p', Limited permits p' s' := by
  cases a with
  | caller => exact ⟨p, hs.callerStep h⟩
  | task i =>
      obtain ⟨t, t', l', ht, hstep, rfl⟩ := step_task_eq_some.1 h
      exact hs.taskStep ht hstep

/-- While a task waits all permits are out, and the task that has one can go on. -/
theorem Limited.isAcquiring_of_final (hs : Limited permits p s) (hpermits : permits ≠ 0)
    (hfinal : ∀ a, MapReduce.step mapper reducer s a = none) (i : ℕ) :
    s.taskIs Task.isAcquiring i = false := by
  -- a task with a permit is not at the end of its run
  have hheld (j : ℕ) : j ∉ sem.held p := fun hj => by
    have hasked := (hs.requests j).1 (Finset.mem_union_left _ hj)
    obtain ⟨t, ht⟩ : ∃ t, s.handles[j]? = some t := by
      rcases hasked with h | h
      · exact (exists_of_taskIs h).imp fun _ h => h.1
      · exact (exists_of_taskIs h).imp fun _ h => h.1
    rw [taskIs_of_getElem? ht, taskIs_of_getElem? ht] at hasked
    rcases task_of_final hfinal ht with ⟨item, -, hout⟩ | ⟨output, rfl⟩
    · exact hout p hs.semaphore hj
    · rcases hasked with h | h <;> cases h
  rw [← Bool.not_eq_true]
  intro hwaits
  have hrequest := (hs.requests i).2 (.inl hwaits)
  have hawaited : i ∈ sem.awaited p := (Finset.mem_union.1 hrequest).resolve_left (hheld i)
  obtain ⟨j, hj⟩ := sem.exists_held ⟨i, hawaited⟩ (hs.permits.trans_ne hpermits)
  exact hheld j hj

/-- There are items, and no task has got past its permit. -/
structure Blocked (s : State sem I O R) : Prop where
  permits : ∃ p, Limited 0 p s
  tasks : ∀ i, s.taskIs Task.isStarted i = false
  items : s.handles = [] → s.unspawned ≠ []
  awaited : s.awaited = 0
  returned : s.returned = none

theorem blocked_init (hp : sem.new 0 = some p) (hitems : items ≠ []) :
    Blocked (system sem mapper reducer items (some p)).init where
  permits := ⟨p, limited_init hp items⟩
  tasks := fun _ => rfl
  items := fun _ => hitems
  awaited := rfl
  returned := rfl

theorem Blocked.not_started (hs : Blocked s) {i : ℕ} {t : Task I O} (ht : s.handles[i]? = some t) :
    t.isStarted = false :=
  (taskIs_of_getElem? ht Task.isStarted).symm.trans (hs.tasks i)

theorem Blocked.step (hs : Blocked s) (h : step mapper reducer s a = some s') : Blocked s' := by
  obtain ⟨p, hp⟩ := hs.permits
  have hpermits := hp.step h
  cases a with
  | caller =>
      rcases callerStep_cases h with ⟨item, -, hs'⟩ | ⟨output, houtput, -, -⟩ |
        ⟨hunspawned, hhandle, -, -⟩
      · rw [hs'] at hpermits ⊢
        exact ⟨hpermits, fun i => (taskIs_concat s rfl _ i).trans (hs.tasks i),
          fun hnil => absurd hnil (List.concat_ne_nil _ _), hs.awaited, hs.returned⟩
      · cases hs.not_started houtput
      · -- the caller has awaited no handle, and there are no items left
        have hle := List.getElem?_eq_none_iff.1 hhandle
        rw [hs.awaited] at hle
        exact absurd hunspawned (hs.items (List.length_eq_zero_iff.1 (Nat.le_zero.1 hle)))
  | task i =>
      obtain ⟨t, t', l', ht, hstep, rfl⟩ := step_task_eq_some.1 h
      have hstarted := hs.not_started ht
      have hnext : t'.isStarted = false := by
        rw [hp.semaphore] at hstep
        rcases taskStep_cases hstep with ⟨item, -, hnone, -, -⟩ | ⟨item, q, -, -, rfl, -⟩ |
          ⟨item, q, -, hq, hheld, -, -⟩ | ⟨item, rfl, -, -⟩ | ⟨output, rfl, -, -⟩
        · cases hnone
        · rfl
        · obtain rfl := Option.some.inj hq
          rw [sem.held_eq_empty hp.permits] at hheld
          cases hheld
        · cases hstarted
        · cases hstarted
      refine ⟨hpermits, fun j => ?_, fun hnil => hs.items ?_, hs.awaited, hs.returned⟩
      · rw [taskIs_set ht, hnext, hs.tasks j, ite_self]
      · exact (List.set_eq_nil_iff i t').1 hnil

/-- With no permit and some item, `map_reduce_with_concurrency` returns nothing in any run. -/
theorem not_completes_of_no_permit (hp : sem.new 0 = some p) (hitems : items ≠ []) (r : R) :
    ¬ (system sem mapper reducer items (some p)).Completes (fun s => s.returned = some r) := by
  intro hcompletes
  obtain ⟨s, hs, hreturned⟩ := hcompletes.exists_invariant (blocked_init hp hitems)
    (fun _ _ _ hs h => hs.step h)
  rw [hs.returned] at hreturned
  cases hreturned

/-- The runs of `map_reduce_with_concurrency` and those of `map_reduce` all end with the reducer's
value of the `Ok` values in item order, and no more mappers run at a time than the limit says. -/
structure Agrees (sem : Semaphore) (items : List I) (mapper : I → Output O) (reducer : List O → R)
    (concurrency : UInt64) (S : TransitionSystem (State sem I O R) Label) : Prop where
  runs : mapReduceWithConcurrency sem items mapper reducer concurrency = some S
  bounded : S.Completes (fun s => s.returned = some (value mapper reducer items))
  unbounded : (mapReduce sem items mapper reducer).Completes
    (fun s => s.returned = some (value mapper reducer items))
  running : ∀ as s, S.exec S.init as = some s →
    s.running.card ≤ max concurrency.toNat 1

theorem limited_completes {concurrency : UInt64} (hp : sem.new concurrency = some p)
    (hpermits : concurrency.toNat ≠ 0) (mapper : I → Output O) (reducer : List O → R)
    (items : List I) :
    (system sem mapper reducer items (some p)).Completes
      (fun s => s.returned = some (value mapper reducer items)) := by
  refine completes_of_measure (m := State.rest)
    (I := fun s => Ordered mapper reducer items s ∧ ∃ q, Limited concurrency.toNat q s)
    (fun _ _ _ => rest_step) ⟨ordered_init (some p), p, limited_init hp items⟩
    (fun s a s' hs h => ⟨hs.1.step h, hs.2.elim fun q hq => hq.step h⟩) ?_
  rintro s ⟨hordered, q, hq⟩ hfinal
  obtain ⟨r, hr⟩ := returned_of_final hfinal (hq.isAcquiring_of_final hpermits hfinal)
  rw [hr, hordered.returned r hr]

/-- Without items there is nothing to wait for. -/
theorem completes_nil (semaphore : Option sem.State) (mapper : I → Output O)
    (reducer : List O → R) :
    (system sem mapper reducer [] semaphore).Completes
      (fun s => s.returned = some (value mapper reducer [])) := by
  refine completes_of_measure (m := State.rest) (I := fun s => Ordered mapper reducer [] s)
    (fun _ _ _ => rest_step) (ordered_init semaphore) (fun s a s' hs h => hs.step h) ?_
  intro s hs hfinal
  have hhandles : s.handles = [] := by
    have houtputs := hs.outputs
    rw [List.map_nil, List.append_eq_nil_iff, List.map_eq_nil_iff] at houtputs
    exact houtputs.1
  have hacquiring (i : ℕ) : s.taskIs Task.isAcquiring i = false := by
    rw [State.taskIs, hhandles]
    rfl
  obtain ⟨r, hr⟩ := returned_of_final hfinal hacquiring
  rw [hr, hs.returned r hr]

/-- For every semaphore, `map_reduce_with_concurrency` agrees with `map_reduce` if and only if there
are no items or the limit is not zero, and the limit is not beyond what a semaphore can have. -/
theorem agrees_iff (sem : Semaphore) (items : List I) (mapper : I → Output O)
    (reducer : List O → R) (concurrency : UInt64) :
    (∃ S, Agrees sem items mapper reducer concurrency S) ↔
      (items = [] ∨ concurrency ≠ 0) ∧ concurrency.toNat ≤ (2 ^ 64 - 1) / 2 ^ 3 := by
  rw [← sem.new_isSome_iff, Option.isSome_iff_exists]
  constructor
  · rintro ⟨S, hagrees⟩
    obtain ⟨p, hp, rfl⟩ := Option.map_eq_some_iff.1 hagrees.runs
    refine ⟨?_, p, hp⟩
    by_contra hnone
    obtain ⟨hitems, hzero⟩ := not_or.1 hnone
    rw [not_not.1 hzero] at hp
    exact not_completes_of_no_permit hp hitems _ hagrees.bounded
  · rintro ⟨hlimit, p, hp⟩
    refine ⟨system sem mapper reducer items (some p), ?_, ?_, ?_, ?_⟩
    · rw [mapReduceWithConcurrency, hp, Option.map_some]
    · rcases hlimit with rfl | hlimit
      · exact completes_nil (some p) mapper reducer
      · exact limited_completes hp (fun hzero => hlimit (UInt64.toNat_inj.1 hzero)) mapper reducer
          items
    · exact mapReduce_completes sem items mapper reducer
    · intro as s he
      obtain ⟨q, hq⟩ := exec_invariant (system sem mapper reducer items (some p))
        (I := fun s => ∃ q, Limited concurrency.toNat q s)
        (fun s a s' hs h => hs.elim fun q hq => hq.step h) ⟨p, limited_init hp items⟩ he
      exact hq.running_le.trans (Nat.le_max_left _ _)

/-- `test_map_reduce_basic` with two permits of the fair semaphore. -/
theorem agrees_iff_two :
    ∃ S, Agrees Semaphore.fair [1, 2, 3, 4, 5] (fun item : ℕ => .ok (.ok (item * 2)))
      List.sum 2 S :=
  (agrees_iff Semaphore.fair _ _ _ 2).2 ⟨.inr (by decide), by decide⟩

/-- With the limit zero a single item keeps the caller waiting, and with the greatest limit
`Semaphore::new` panics. -/
theorem not_agrees_zero :
    ¬ (∃ S, Agrees Semaphore.fair [1] (fun n : ℕ => .ok (.ok n)) List.sum 0 S) ∧
      ¬ (∃ S, Agrees Semaphore.fair [1] (fun n : ℕ => .ok (.ok n)) List.sum
        0xffffffffffffffff S) := by
  constructor
  · rintro ⟨S, hagrees⟩
    obtain ⟨p, hp, rfl⟩ := Option.map_eq_some_iff.1 hagrees.runs
    exact not_completes_of_no_permit hp (List.cons_ne_nil 1 []) _ hagrees.bounded
  · rintro ⟨S, hagrees⟩
    cases hagrees.runs

end Rszero.MapReduce
