import Rszero.ConcurrentPrograms
import Rszero.SagaListing
import Rszero.SagaLog

/-!
# What the table tells of running sagas

Any number of sagas run and write to one table, each `record_step` one insert that may fail; a saga
may be cut off anywhere. `load_saga` shows the last record that the saga has written, so it shows
the end, with the state and the error of the result, exactly when the saga has returned and its last
insert went through. `list_sagas` shows for each saga what `load_saga` shows for it.
-/

namespace Rszero

open CallProgram

variable {A C T : Type}

namespace PersistentSaga

/-- The last record of an execution with this result. -/
def endRecord (p : PersistentSaga A C) (result : SagaResult T) : StepRecord :=
  match result.error with
  | none => p.record "__end__" .completed none
  | some e => p.record "__end__" .failed (some e.toString)

structure Unreserved (p : PersistentSaga A C) : Prop where
  ne_end : ∀ step ∈ p.saga.steps, step.name ≠ "__end__"

/-- No call follows the record of the end, and the records name the saga. -/
structure Before (p : PersistentSaga A C) (past : List (Call A C T)) (e : Call A C T) : Prop where
  unended : ¬ Ended past
  names : ∀ r, e.1 = .inr r → r.saga_id = p.saga_id ∧ r.saga_name = p.saga.name

def Returns (p : PersistentSaga A C) (past : List (Call A C T)) (result : SagaResult T) : Prop :=
  ∃ before ans, past = before ++ [⟨.inr (p.endRecord result), ans⟩] ∧ ¬ Ended before

section Execution

variable {p : PersistentSaga A C} {past : List (Call A C T)} {α : Type}

abbrev Runs (p : PersistentSaga A C) (q : Program A C T α) (Q : List (Call A C T) → α → Prop)
    (past : List (Call A C T)) : Prop :=
  q.Ensures (fun _ => True) (Before p) Q past

theorem unended_append {e : Call A C T} (h : ¬ Ended past)
    (he : ∀ r, e.1 = .inr r → r.step_name ≠ "__end__") : ¬ Ended (past ++ [e]) := by
  obtain ⟨op | r, ans⟩ := e
  · exact fun hended => h (ended_call.1 hended)
  · cases ans with
    | ok =>
        rw [ended_record]
        exact not_or.2 ⟨h, he r rfl⟩
    | error e => simpa [Ended, logged] using h

theorem persist_runs {q : Program A C T α} {Q : List (Call A C T) → α → Prop} {step_name : String}
    {state : SagaState} {error : Option String} (h : ¬ Ended past)
    (hq : ∀ ans, Runs p q Q (past ++ [⟨.inr (p.record step_name state error), ans⟩])) :
    Runs p (persist (p.record step_name state error) q) Q past := by
  intro ans _
  refine ⟨⟨h, fun r hr => ?_⟩, hq ans⟩
  obtain rfl := Sum.inr.inj hr
  exact ⟨rfl, rfl⟩

/-- A record that is not that of the end. -/
theorem persist_unended {q : Program A C T α} {Q : List (Call A C T) → α → Prop}
    {step_name : String} {state : SagaState} {error : Option String} (h : ¬ Ended past)
    (hname : step_name ≠ "__end__")
    (hq : ∀ past', ¬ Ended past' → Runs p q Q past') :
    Runs p (persist (p.record step_name state error) q) Q past := by
  refine persist_runs h (fun ans => hq _ (unended_append h ?_))
  intro r hr
  obtain rfl := Sum.inr.inj hr
  exact hname

theorem call_runs {op : SagaCall A C} {next : SagaCall.Answer T op → Program A C T α}
    {Q : List (Call A C T) → α → Prop} (h : ¬ Ended past)
    (hnext : ∀ ans past', ¬ Ended past' → Runs p (next ans) Q past') :
    Runs p (.call (.inl op) next) Q past := by
  intro ans _
  exact ⟨⟨h, nofun⟩, hnext ans _ (unended_append h nofun)⟩

theorem retryCompensation_runs {step : SagaStep A C} (hstep : step.name ≠ "__end__")
    (errors : StepErrors) (retries : List ℕ) (h : ¬ Ended past) :
    Runs p (p.retryCompensation (T := T) step errors retries) (fun past' _ => ¬ Ended past')
      past := by
  induction retries generalizing errors past with
  | nil => exact h
  | cons retry retries ih =>
      refine call_runs h (fun ans past' h' => ?_)
      cases ans with
      | ok => exact persist_unended h' hstep (fun _ h'' => h'')
      | error ce =>
          by_cases hretry : retry = 2
          · simp only [if_pos hretry]
            exact persist_unended h' hstep (fun _ h'' => ih _ h'')
          · simp only [if_neg hretry]
            exact ih _ h'

theorem compensateAll_runs (hp : p.Unreserved) (errors : StepErrors) (is : List ℕ)
    (his : ∀ i ∈ is, i < p.saga.steps.length) (h : ¬ Ended past) :
    Runs p (p.compensateAll (T := T) errors is) (fun past' _ => ¬ Ended past') past := by
  induction is generalizing errors past with
  | nil => exact h
  | cons i is ih =>
      have hi : i < p.saga.steps.length := his i List.mem_cons_self
      unfold compensateAll
      rw [List.getElem?_eq_getElem hi]
      refine (retryCompensation_runs (hp.ne_end _ (List.getElem_mem hi)) errors _ h).bind ?_
      intro past' errors' h'
      exact ih errors' (fun j hj => his j (List.mem_cons_of_mem _ hj)) h'

/-- The end is recorded last. -/
theorem end_runs (result : SagaResult T) (h : ¬ Ended past) :
    Runs p (persist (p.endRecord result) (.done result)) (Returns p) past := by
  intro ans _
  refine ⟨⟨h, fun r hr => ?_⟩, past, ans, rfl, h⟩
  obtain rfl := Sum.inr.inj hr
  unfold endRecord
  cases result.error with
  | none => exact ⟨rfl, rfl⟩
  | some e => exact ⟨rfl, rfl⟩

theorem executeSteps_runs (hp : p.Unreserved) (completed : List String) (outputs : List T)
    (rest : List (SagaStep A C)) (hrest : ∀ step ∈ rest, step ∈ p.saga.steps)
    (hlen : completed.length + rest.length = p.saga.steps.length) (h : ¬ Ended past) :
    Runs p (p.executeSteps completed outputs rest) (Returns p) past := by
  induction rest generalizing completed outputs past with
  | nil => exact end_runs ⟨completed, outputs, none, none, []⟩ h
  | cons step rest ih =>
      have hstep := hrest step List.mem_cons_self
      have hname := hp.ne_end step hstep
      rw [List.length_cons] at hlen
      refine persist_unended h hname (fun past₁ h₁ => call_runs h₁ (fun ans past₂ h₂ => ?_))
      cases ans with
      | ok output =>
          refine persist_unended h₂ hname (fun past₃ h₃ => ih _ _ ?_ ?_ h₃)
          · exact fun step' hstep' => hrest step' (List.mem_cons_of_mem _ hstep')
          · rw [List.length_append, List.length_singleton]
            omega
      | error e =>
          refine persist_unended h₂ hname (fun past₃ h₃ => ?_)
          refine persist_unended h₃ (by decide) (fun past₄ h₄ => ?_)
          refine (compensateAll_runs hp [] _ ?_ h₄).bind (fun past₅ errors h₅ => ?_)
          · intro i hi
            rw [List.mem_reverse, List.mem_range] at hi
            omega
          · exact end_runs ⟨completed, outputs, some step.name, some e, errors⟩ h₅

theorem execute_runs (hp : p.Unreserved) : Runs p (p.execute (T := T)) (Returns p) [] := by
  have hempty : ¬ Ended ([] : List (Call A C T)) := by simp [Ended, logged]
  refine persist_unended hempty (by decide) (fun past h => ?_)
  exact executeSteps_runs hp [] [] _ (fun _ hstep => hstep) (by simp) h

end Execution
end PersistentSaga

namespace SagaListing

open PersistentSaga

/-- `WHERE saga_id = $1 ORDER BY id DESC LIMIT 1` -/
def loadSaga (rows : List Row) (saga_id : String) : Option SagaRecord :=
  let selected := rows.filter (fun row => row.saga_id = saga_id)
  (selected.insertionSort (fun a b => b.id ≤ a.id)).head?.map parseRecord

/-- `nextId` is the value that the sequence of `id` gives next. -/
structure Table where
  rows : List Row
  nextId : ℕ

/-- What the steps of a saga answer, and what the database makes of the insert. -/
structure Choice (A C T : Type) where
  answer : (op : SagaCall A C) → SagaCall.Answer T op
  insert : Except RszeroError (Option String)

def Table.insert (table : Table) (r : StepRecord) (created_at : Option String) : Table :=
  ⟨table.rows ++ [recordStep table.nextId r created_at], table.nextId + 1⟩

def perform (table : Table) (x : Choice A C T) :
    (op : SagaCall A C ⊕ StepRecord) → PersistentSaga.Answer A C T op × Table
  | .inl op => (x.answer op, table)
  | .inr r =>
      match x.insert with
      | .ok created_at => (.ok (), table.insert r created_at)
      | .error e => (.error e, table)

theorem perform_ok {table : Table} {x : Choice A C T} {created_at : Option String}
    (h : x.insert = .ok created_at) (r : StepRecord) :
    perform table x (.inr r) = (.ok (), table.insert r created_at) := by
  simp only [perform, h]

theorem perform_error {table : Table} {x : Choice A C T} {e : RszeroError}
    (h : x.insert = .error e) (r : StepRecord) :
    perform table x (.inr r) = (.error e, table) := by
  simp only [perform, h]

def platform (A C T : Type) : Platform (PersistentSaga.Answer A C T) (PersistentSaga A C)
    (SagaResult T) Table (Choice A C T) Empty where
  shared := ⟨[], 0⟩
  body := PersistentSaga.execute
  perform table x op := some (perform table x op)
  env _ e := nomatch e

abbrev Sagas (A C T : Type) :=
  Platform.State (PersistentSaga.Answer A C T) (PersistentSaga A C) (SagaResult T) Table

abbrev SagaLabel (A C T : Type) := Platform.Label (PersistentSaga A C) (Choice A C T) Empty

abbrev SagaTask (A C T : Type) :=
  Platform.Task (PersistentSaga.Answer A C T) (PersistentSaga A C) (SagaResult T)

/-- A saga is started under an id of its own, and none of its steps has the name of the end. -/
def WellStarted (s : Sagas A C T) : SagaLabel A C T → Prop
  | .spawn _ p => p.Unreserved ∧
      ∀ i task, s.tasks i = some task → task.request.saga_id ≠ p.saga_id
  | _ => True

def Stores (row : Row) (r : StepRecord) : Prop := row = recordStep row.id r row.created_at

def rowsOf (rows : List Row) (saga_id : String) : List Row :=
  rows.filter (fun row => row.saga_id = saga_id)

/-- The rows are those that the sagas have written, in order. -/
structure Tabled (s : Sagas A C T) : Prop where
  ids : s.shared.rows.Pairwise (fun a b => a.id < b.id)
  bound : ∀ row ∈ s.shared.rows, row.id < s.shared.nextId
  owner : ∀ row ∈ s.shared.rows, ∃ i task, s.tasks i = some task ∧
    task.request.saga_id = row.saga_id ∧ task.request.saga.name = row.saga_name
  distinct : ∀ i j task task', s.tasks i = some task → s.tasks j = some task' →
    task.request.saga_id = task'.request.saga_id → i = j
  unreserved : ∀ i task, s.tasks i = some task → task.request.Unreserved
  reaches : ∀ i task, s.tasks i = some task → task.request.execute.Reaches task.past task.rest
  stored : ∀ i task, s.tasks i = some task →
    List.Forall₂ Stores (rowsOf s.shared.rows task.request.saga_id) (logged task.past)

section Table

variable {s s' : Sagas A C T}

theorem rowsOf_append_self {rows : List Row} {id : ℕ} {r : StepRecord} {created_at : Option String}
    {saga_id : String} (h : r.saga_id = saga_id) :
    rowsOf (rows ++ [recordStep id r created_at]) saga_id =
      rowsOf rows saga_id ++ [recordStep id r created_at] := by
  simp [rowsOf, recordStep, h]

theorem rowsOf_append_of_ne {rows : List Row} {id : ℕ} {r : StepRecord} {created_at : Option String}
    {saga_id : String} (h : r.saga_id ≠ saga_id) :
    rowsOf (rows ++ [recordStep id r created_at]) saga_id = rowsOf rows saga_id := by
  simp [rowsOf, recordStep, h]

theorem runs_rest {p : PersistentSaga A C} (hp : p.Unreserved) {past : List (Call A C T)}
    {rest : Program A C T (SagaResult T)} (h : p.execute.Reaches past rest) :
    Runs p rest (Returns p) past :=
  h.ensures (execute_runs hp) (fun _ _ => trivial)

theorem Tabled.initial : Tabled (platform A C T).system.init where
  ids := .nil
  bound _ h := absurd h List.not_mem_nil
  owner _ h := absurd h List.not_mem_nil
  distinct _ _ _ _ h := nomatch h
  unreserved _ _ h := nomatch h
  reaches _ _ h := nomatch h
  stored _ _ h := nomatch h

namespace Tabled

theorem spawn (h : Tabled s) {i : ℕ} {p : PersistentSaga A C} (hi : s.tasks i = none)
    (hp : WellStarted s (.spawn i p)) : Tabled (s.put i ((platform A C T).begun p)) where
  ids := h.ids
  bound := h.bound
  owner row hrow := by
    obtain ⟨j, task, hj, howner⟩ := h.owner row hrow
    have hne : j ≠ i := by
      rintro rfl
      rw [hi] at hj
      cases hj
    exact ⟨j, task, (Platform.put_tasks_of_ne hne s _).trans hj, howner⟩
  distinct j k task task' hj hk hid := by
    rcases Platform.tasks_put hj with ⟨hji, htask⟩ | ⟨-, hold⟩
    · rcases Platform.tasks_put hk with ⟨hki, -⟩ | ⟨-, hold'⟩
      · exact hji.trans hki.symm
      · rw [htask] at hid
        exact absurd hid.symm (hp.2 k task' hold')
    · rcases Platform.tasks_put hk with ⟨-, htask'⟩ | ⟨-, hold'⟩
      · rw [htask'] at hid
        exact absurd hid (hp.2 j task hold)
      · exact h.distinct j k task task' hold hold' hid
  unreserved j task hj := by
    rcases Platform.tasks_put hj with ⟨-, rfl⟩ | ⟨-, hj⟩
    · exact hp.1
    · exact h.unreserved j task hj
  reaches j task hj := by
    rcases Platform.tasks_put hj with ⟨-, rfl⟩ | ⟨-, hj⟩
    · exact .start
    · exact h.reaches j task hj
  stored j task hj := by
    rcases Platform.tasks_put hj with ⟨-, rfl⟩ | ⟨-, hj⟩
    · have hnone : rowsOf s.shared.rows p.saga_id = [] := by
        refine List.filter_eq_nil_iff.2 (fun row hrow hid => ?_)
        obtain ⟨k, task, hk, hid', -⟩ := h.owner row hrow
        exact hp.2 k task hk (hid'.trans (of_decide_eq_true hid))
      change List.Forall₂ Stores (rowsOf s.shared.rows p.saga_id) []
      rw [hnone]
      exact .nil
    · exact h.stored j task hj

/-- A step of one saga, which may add rows of its own. -/
theorem replace (h : Tabled s) {i : ℕ} {task : SagaTask A C T} (ht : s.tasks i = some task)
    (task' : SagaTask A C T) (hrequest : task'.request = task.request)
    (hreaches : task.request.execute.Reaches task'.past task'.rest) {shared : Table}
    (hids : shared.rows.Pairwise (fun a b => a.id < b.id))
    (hbound : ∀ row ∈ shared.rows, row.id < shared.nextId)
    (hrows : ∀ row ∈ shared.rows, row ∈ s.shared.rows ∨
      task.request.saga_id = row.saga_id ∧ task.request.saga.name = row.saga_name)
    (hself : List.Forall₂ Stores (rowsOf shared.rows task.request.saga_id) (logged task'.past))
    (hother : ∀ saga_id, saga_id ≠ task.request.saga_id →
      rowsOf shared.rows saga_id = rowsOf s.shared.rows saga_id) :
    Tabled ({ s with shared := shared }.put i task') where
  ids := hids
  bound := hbound
  owner row hrow := by
    have hmine (howner : task.request.saga_id = row.saga_id ∧
        task.request.saga.name = row.saga_name) : ∃ j task₁,
        ({ s with shared := shared }.put i task').tasks j = some task₁ ∧
          task₁.request.saga_id = row.saga_id ∧ task₁.request.saga.name = row.saga_name :=
      ⟨i, task', Platform.put_tasks_self .., by rwa [hrequest]⟩
    rcases hrows row hrow with hold | howner
    · obtain ⟨j, task₁, hj, howner⟩ := h.owner row hold
      by_cases hij : j = i
      · subst hij
        obtain rfl := Option.some.inj (ht.symm.trans hj)
        exact hmine howner
      · exact ⟨j, task₁, (Platform.put_tasks_of_ne hij _ _).trans hj, howner⟩
    · exact hmine howner
  distinct j k task₁ task₂ hj hk hid := by
    rcases Platform.tasks_put hj with ⟨hji, htask⟩ | ⟨-, hold⟩
    · rcases Platform.tasks_put hk with ⟨hki, -⟩ | ⟨-, hold'⟩
      · exact hji.trans hki.symm
      · rw [htask, hrequest] at hid
        exact hji.trans (h.distinct i k task task₂ ht hold' hid)
    · rcases Platform.tasks_put hk with ⟨hki, htask'⟩ | ⟨-, hold'⟩
      · rw [htask', hrequest] at hid
        exact (h.distinct j i task₁ task hold ht hid).trans hki.symm
      · exact h.distinct j k task₁ task₂ hold hold' hid
  unreserved j task₁ hj := by
    rcases Platform.tasks_put hj with ⟨-, rfl⟩ | ⟨-, hj⟩
    · rw [hrequest]
      exact h.unreserved i task ht
    · exact h.unreserved j task₁ hj
  reaches j task₁ hj := by
    rcases Platform.tasks_put hj with ⟨-, rfl⟩ | ⟨-, hj⟩
    · rw [hrequest]
      exact hreaches
    · exact h.reaches j task₁ hj
  stored j task₁ hj := by
    rcases Platform.tasks_put hj with ⟨-, rfl⟩ | ⟨hne, hj⟩
    · rw [hrequest]
      exact hself
    · have hid : task₁.request.saga_id ≠ task.request.saga_id :=
        fun hid => hne (h.distinct j i task₁ task hj ht hid)
      change List.Forall₂ Stores (rowsOf shared.rows task₁.request.saga_id) _
      rw [hother _ hid]
      exact h.stored j task₁ hj

theorem call (h : Tabled s) {i : ℕ} {x : Choice A C T} {task : SagaTask A C T}
    (ht : s.tasks i = some task) {op : SagaCall A C ⊕ StepRecord}
    {rest : PersistentSaga.Answer A C T op → Program A C T (SagaResult T)}
    (hrest : task.rest = .call op rest) :
    Tabled ({ s with shared := (perform s.shared x op).2 }.put i
      (task.answered rest (perform s.shared x op).1)) := by
  have hreaches := hrest ▸ h.reaches i task ht
  have hruns := runs_rest (h.unreserved i task ht) hreaches
  -- a call that writes nothing
  have hsilent (ans : PersistentSaga.Answer A C T op)
      (hlogged : logged (task.past ++ [⟨op, ans⟩]) = logged task.past) :
      Tabled ({ s with shared := s.shared }.put i (task.answered rest ans)) := by
    refine h.replace ht (task.answered rest ans) rfl (hreaches.call ans) h.ids h.bound
      (fun row hrow => .inl hrow) ?_ (fun _ _ => rfl)
    change List.Forall₂ Stores _ (logged (task.past ++ [⟨op, ans⟩]))
    rw [hlogged]
    exact h.stored i task ht
  cases op with
  | inl op => exact hsilent (x.answer op) ((logged_append ..).trans (List.append_nil _))
  | inr r =>
      cases hinsert : x.insert with
      | error e =>
          rw [perform_error hinsert]
          exact hsilent (.error e) (by simp [logged])
      | ok created_at =>
          rw [perform_ok hinsert]
          obtain ⟨hid, hname⟩ := (hruns (.ok ()) trivial).1.names r rfl
          have hstores : Stores (recordStep s.shared.nextId r created_at) r := rfl
          refine h.replace ht (task.answered rest (.ok ())) rfl (hreaches.call (.ok ()))
            ?_ ?_ ?_ ?_ ?_
          · refine List.pairwise_append.2 ⟨h.ids, List.pairwise_singleton _ _, ?_⟩
            rintro row hrow _ hnew
            rw [List.mem_singleton.1 hnew]
            exact h.bound row hrow
          · intro row hrow
            rcases List.mem_append.1 hrow with hrow | hnew
            · exact (h.bound row hrow).trans (Nat.lt_succ_self _)
            · rw [List.mem_singleton.1 hnew]
              exact Nat.lt_succ_self _
          · intro row hrow
            rcases List.mem_append.1 hrow with hrow | hnew
            · exact .inl hrow
            · rw [List.mem_singleton.1 hnew]
              exact .inr ⟨hid.symm, hname.symm⟩
          · change List.Forall₂ Stores _ (logged (task.past ++ [⟨.inr r, .ok ()⟩]))
            have hrows : rowsOf (s.shared.insert r created_at).rows task.request.saga_id =
                rowsOf s.shared.rows task.request.saga_id ++
                  [recordStep s.shared.nextId r created_at] := rowsOf_append_self hid
            rw [logged_append, hrows]
            exact List.rel_append (h.stored i task ht) (.cons hstores .nil)
          · intro saga_id hne
            exact rowsOf_append_of_ne (fun heq => hne (heq.symm.trans hid))

theorem cut (h : Tabled s) {i : ℕ} {task : SagaTask A C T} (ht : s.tasks i = some task) :
    Tabled (s.put i { task with live := false }) :=
  h.replace ht { task with live := false } rfl (h.reaches i task ht) h.ids h.bound
    (fun _ hrow => .inl hrow) (h.stored i task ht) (fun _ _ => rfl)

theorem next (h : Tabled s) {a : SagaLabel A C T} (ha : WellStarted s a)
    (hstep : (platform A C T).system.step s a = some s') : Tabled s' := by
  cases Platform.next_move hstep with
  | spawn hi => exact h.spawn hi ha
  | call ht _ hrest hp =>
      obtain ⟨rfl, rfl⟩ := Prod.mk.inj (Option.some.inj hp)
      exact h.call ht hrest
  | cut ht => exact h.cut ht
  | @env e => exact nomatch e

theorem reachable (hs : (platform A C T).system.Reachable WellStarted s) : Tabled s :=
  hs.invariant .initial (fun _ _ _ h ha hstep => h.next ha hstep)

end Tabled
end Table

section Load

variable {s : Sagas A C T} {rows : List Row} {saga_id : String}

theorem loadSaga_eq (h : rows.Pairwise (fun a b => a.id < b.id)) (saga_id : String) :
    loadSaga rows saga_id = (rowsOf rows saga_id).getLast?.map parseRecord := by
  have htotal : Std.Total (fun a b : Row => b.id ≤ a.id) := ⟨fun a b => Nat.le_total b.id a.id⟩
  have htrans : IsTrans Row (fun a b : Row => b.id ≤ a.id) :=
    ⟨fun _ _ _ hab hbc => Nat.le_trans hbc hab⟩
  have hids : (rowsOf rows saga_id).Pairwise (fun a b => a.id < b.id) := h.filter _
  have hreverse : (rowsOf rows saga_id).reverse.Pairwise (fun a b => b.id ≤ a.id) :=
    List.pairwise_reverse.2 (hids.imp Nat.le_of_lt)
  have hnodup : ((rowsOf rows saga_id).map Row.id).Nodup :=
    List.pairwise_map.2 (hids.imp Nat.ne_of_lt)
  have hsort : (rowsOf rows saga_id).insertionSort (fun a b => b.id ≤ a.id) =
      (rowsOf rows saga_id).reverse := by
    refine List.Perm.eq_of_pairwise ?_ (List.pairwise_insertionSort _ _) hreverse
      ((List.perm_insertionSort _ _).trans (List.reverse_perm _).symm)
    intro a b ha hb hab hba
    rw [List.mem_insertionSort] at ha
    rw [List.mem_reverse] at hb
    exact List.inj_on_of_nodup_map hnodup ha hb (Nat.le_antisymm hba hab)
  change ((rowsOf rows saga_id).insertionSort (fun a b => b.id ≤ a.id)).head?.map parseRecord = _
  rw [hsort, List.head?_reverse]

def Shows (record : SagaRecord) (r : StepRecord) : Prop :=
  ∃ id created_at, record = parseRecord (recordStep id r created_at)

theorem Shows.step_name {record : SagaRecord} {r : StepRecord} (h : Shows record r) :
    record.step_name = r.step_name := by
  obtain ⟨id, created_at, rfl⟩ := h
  rfl

structure Tells (rows : List Row) (task : SagaTask A C T) : Prop where
  latest : Option.Rel Shows (loadSaga rows task.request.saga_id) (logged task.past).getLast?
  ended : ∀ record, loadSaga rows task.request.saga_id = some record →
    record.step_name = "__end__" → ∃ result, task.rest = .done result ∧
      Shows record (task.request.endRecord result)
  returned : ∀ result, task.rest = .done result → ∃ ans,
    task.past.getLast? = some ⟨.inr (task.request.endRecord result), ans⟩ ∧
      (ans = .ok () → ∃ record, loadSaga rows task.request.saga_id = some record ∧
        Shows record (task.request.endRecord result))

theorem rel_getLast? {α β : Type} {R : α → β → Prop} {l : List α} {l' : List β}
    (h : List.Forall₂ R l l') : Option.Rel R l.getLast? l'.getLast? := by
  have hreverse := List.forall₂_reverse_iff.2 h
  rw [← List.head?_reverse, ← List.head?_reverse]
  generalize l.reverse = m at hreverse ⊢
  generalize l'.reverse = m' at hreverse ⊢
  cases hreverse with
  | nil => exact .none
  | cons hhead _ => exact .some hhead

theorem unended_of_call {p : PersistentSaga A C} {past : List (Call A C T)}
    {op : SagaCall A C ⊕ StepRecord}
    {rest : PersistentSaga.Answer A C T op → Program A C T (SagaResult T)}
    (h : Runs p (.call op rest) (Returns p) past) : ¬ Ended past := by
  rcases op with (step | step) | r
  · exact (h (.error (.internal "" none)) trivial).1.unended
  · exact (h (.error (.internal "" none)) trivial).1.unended
  · exact (h (.ok ()) trivial).1.unended

theorem latest (h : Tabled s) {i : ℕ} {task : SagaTask A C T} (ht : s.tasks i = some task) :
    Option.Rel Shows (loadSaga s.shared.rows task.request.saga_id) (logged task.past).getLast? := by
  rw [loadSaga_eq h.ids]
  have hlast := rel_getLast? (h.stored i task ht)
  generalize (rowsOf s.shared.rows task.request.saga_id).getLast? = row at hlast ⊢
  generalize (logged task.past).getLast? = r at hlast ⊢
  cases hlast with
  | none => exact .none
  | @some row r hstores => exact .some ⟨row.id, row.created_at, congrArg parseRecord hstores⟩

/-- Whatever other sagas do, and wherever the saga is cut off, `load_saga` shows the last record it
has written: the end only with the result of the saga, and always when its last insert went
through. -/
theorem loadSaga_tells (hs : (platform A C T).system.Reachable WellStarted s) {i : ℕ}
    {task : SagaTask A C T} (ht : s.tasks i = some task) : Tells s.shared.rows task := by
  have htabled := Tabled.reachable hs
  have hruns := runs_rest (htabled.unreserved i task ht) (htabled.reaches i task ht)
  have hlatest := latest htabled ht
  -- the last record when the end is recorded
  have hend (before : List (Call A C T)) (result : SagaResult T)
      (hpast : task.past = before ++ [⟨.inr (task.request.endRecord result), .ok ()⟩]) :
      (logged task.past).getLast? = some (task.request.endRecord result) := by
    rw [hpast, logged_append]
    exact List.getLast?_concat
  refine ⟨hlatest, fun record hrecord hname => ?_, fun result hdone => ?_⟩
  · rw [hrecord] at hlatest
    obtain ⟨r, hlast, hshows⟩ : ∃ r, (logged task.past).getLast? = some r ∧ Shows record r := by
      cases hr : (logged task.past).getLast? with
      | none =>
          rw [hr] at hlatest
          cases hlatest
      | some r =>
          rw [hr] at hlatest
          obtain ⟨hshows⟩ := hlatest
          exact ⟨r, rfl, hshows⟩
    have hended : Ended task.past :=
      ⟨r, List.mem_of_getLast? hlast, hshows.step_name.symm.trans hname⟩
    cases hrest : task.rest with
    | panic =>
        rw [hrest] at hruns
        exact hruns.elim
    | call op next =>
        rw [hrest] at hruns
        exact absurd hended (unended_of_call hruns)
    | done result =>
        rw [hrest] at hruns
        obtain ⟨before, ans, hpast, hunended⟩ := hruns
        refine ⟨result, rfl, ?_⟩
        cases ans with
        | ok =>
            have hsame := hlast.symm.trans (hend before result hpast)
            exact Option.some.inj hsame ▸ hshows
        | error e =>
            refine absurd ?_ hunended
            rw [hpast] at hended
            simpa [Ended, logged] using hended
  · rw [hdone] at hruns
    obtain ⟨before, ans, hpast, -⟩ := hruns
    refine ⟨ans, by rw [hpast]; exact List.getLast?_concat, ?_⟩
    rintro rfl
    rw [hend before result hpast] at hlatest
    cases hload : loadSaga s.shared.rows task.request.saga_id with
    | none =>
        rw [hload] at hlatest
        cases hlatest
    | some record =>
        rw [hload] at hlatest
        obtain ⟨hshows⟩ := hlatest
        exact ⟨record, rfl, hshows⟩

end Load

section List

variable {s : Sagas A C T}

theorem getLast?_eq_some_iff {rows : List Row} (h : rows.Pairwise (fun a b => a.id < b.id))
    {row : Row} : rows.getLast? = some row ↔ row ∈ rows ∧ ∀ other ∈ rows, other.id ≤ row.id := by
  rcases List.eq_nil_or_concat' rows with rfl | ⟨before, last, rfl⟩
  · simp
  · have hlast (other : Row) (hother : other ∈ before) : other.id < last.id :=
      (List.pairwise_append.1 h).2.2 other hother last List.mem_cons_self
    rw [List.getLast?_concat, Option.some.injEq]
    constructor
    · rintro rfl
      refine ⟨by simp, fun other hother => ?_⟩
      rcases List.mem_append.1 hother with hbefore | hsame
      · exact (hlast other hbefore).le
      · rw [List.mem_singleton.1 hsame]
    · rintro ⟨hrow, hmax⟩
      rcases List.mem_append.1 hrow with hbefore | hsame
      · have hlt := hlast row hbefore
        have hle := hmax last (by simp)
        omega
      · exact (List.mem_singleton.1 hsame).symm

/-- The rows of a saga have its name. -/
theorem Tabled.saga_name (h : Tabled s) {i : ℕ} {task : SagaTask A C T} (ht : s.tasks i = some task)
    {row : Row} (hrow : row ∈ rowsOf s.shared.rows task.request.saga_id) :
    row.saga_name = task.request.saga.name := by
  obtain ⟨hmem, hid⟩ := List.mem_filter.1 hrow
  obtain ⟨j, task', hj, hid', hname⟩ := h.owner row hmem
  obtain rfl := h.distinct i j task task' ht hj ((of_decide_eq_true hid).symm.trans hid'.symm)
  rw [Option.some.inj (ht.symm.trans hj), hname]

theorem Tabled.latest_iff (h : Tabled s) {i : ℕ} {task : SagaTask A C T}
    (ht : s.tasks i = some task) {row : Row} :
    (rowsOf s.shared.rows task.request.saga_id).getLast? = some row ↔
      row.saga_id = task.request.saga_id ∧ Latest task.request.saga.name s.shared.rows row := by
  have hmem (other : Row) : other ∈ rowsOf s.shared.rows task.request.saga_id ↔
      other ∈ s.shared.rows ∧ other.saga_id = task.request.saga_id := by simp [rowsOf]
  rw [rowsOf, getLast?_eq_some_iff (h.ids.filter _), ← rowsOf]
  constructor
  · rintro ⟨hrow, hmax⟩
    obtain ⟨hrow', hid⟩ := (hmem row).1 hrow
    refine ⟨hid, hrow', h.saga_name ht hrow, fun other hother _ hsame => ?_⟩
    exact hmax other ((hmem other).2 ⟨hother, hsame.trans hid⟩)
  · rintro ⟨hid, hlatest⟩
    refine ⟨(hmem row).2 ⟨hlatest.mem, hid⟩, fun other hother => ?_⟩
    obtain ⟨hother', hid'⟩ := (hmem other).1 hother
    exact hlatest.last other hother' (h.saga_name ht hother) (hid'.trans hid.symm)

/-- When the name is read as it is, the listing has the records that `load_saga` shows of the sagas
with the name, one for each saga that has written any. -/
theorem listSagas_shows_loadSaga (hs : (platform A C T).system.Reachable WellStarted s)
    {db : Database} {collation : Migration.Collation} {table_name name : String}
    (hdb : db.Runs collation table_name) (hname : SelectsName table_name name) :
    ∃ records, listSagas db table_name (some name) s.shared.rows = some records ∧
      (records.map SagaRecord.saga_id).Nodup ∧
      ∀ record, record ∈ records ↔ ∃ i task, s.tasks i = some task ∧
        task.request.saga.name = name ∧
        loadSaga s.shared.rows task.request.saga_id = some record := by
  have htabled := Tabled.reachable hs
  have hlists : ListsLatest name s.shared.rows (select collation name.toList s.shared.rows) :=
    listsLatest_select htabled.ids
  refine ⟨(select collation name.toList s.shared.rows).map parseRecord, ?_, ?_, fun record => ?_⟩
  · rw [listSagas, hname.2, Option.bind_eq_bind, Option.bind_some, hdb name.toList s.shared.rows]
    rfl
  · rw [List.map_map]
    exact List.pairwise_map.2 hlists.once
  · rw [List.mem_map]
    constructor
    · rintro ⟨row, hrow, rfl⟩
      have hlatest := (hlists.exact row).1 hrow
      obtain ⟨i, task, ht, hid, hname'⟩ := htabled.owner row hlatest.mem
      have hsame : task.request.saga.name = name := hname'.trans hlatest.named
      refine ⟨i, task, ht, hsame, ?_⟩
      rw [loadSaga_eq htabled.ids, (htabled.latest_iff ht).2 ⟨hid.symm, hsame ▸ hlatest⟩]
      rfl
    · rintro ⟨i, task, ht, rfl, hload⟩
      rw [loadSaga_eq htabled.ids] at hload
      obtain ⟨row, hrow, rfl⟩ := Option.map_eq_some_iff.1 hload
      exact ⟨row, (hlists.exact row).2 ((htabled.latest_iff ht).1 hrow).2, rfl⟩

end List

def shipping (saga_id : String) : PersistentSaga ℕ ℕ := ⟨⟨"shipping", [⟨"pack", 0, 1⟩]⟩, saga_id⟩

def goesThrough : Choice ℕ ℕ ℕ where
  answer
    | .execute step => .ok step.action
    | .compensate _ => .ok ()
  insert := .ok none

/-- The first saga returns, and the second one has only started. -/
def shippingRun : List (SagaLabel ℕ ℕ ℕ) :=
  [.call 1 goesThrough] ++ List.replicate 5 (.call 0 goesThrough)

theorem unreserved_shipping (saga_id : String) : (shipping saga_id).Unreserved :=
  ⟨by simp [shipping]⟩

def bothStarted : Sagas ℕ ℕ ℕ :=
  ((platform ℕ ℕ ℕ).system.init.put 0 ((platform ℕ ℕ ℕ).begun (shipping "saga:1"))).put 1
    ((platform ℕ ℕ ℕ).begun (shipping "saga:2"))

theorem reachable_bothStarted : (platform ℕ ℕ ℕ).system.Reachable WellStarted bothStarted := by
  have hfirst : (platform ℕ ℕ ℕ).system.Reachable WellStarted
      ((platform ℕ ℕ ℕ).system.init.put 0 ((platform ℕ ℕ ℕ).begun (shipping "saga:1"))) :=
    .step (a := .spawn 0 (shipping "saga:1")) .init ⟨unreserved_shipping _, nofun⟩ rfl
  refine .step (a := .spawn 1 (shipping "saga:2")) hfirst ⟨unreserved_shipping _, ?_⟩ rfl
  intro i task hi
  rcases Platform.tasks_put hi with ⟨-, rfl⟩ | ⟨-, hi⟩
  · decide
  · cases hi

theorem exec_shippingRun : ∃ s task record,
    (platform ℕ ℕ ℕ).system.exec bothStarted shippingRun = some s ∧ s.tasks 0 = some task ∧
      loadSaga s.shared.rows task.request.saga_id = some record ∧ record.step_name = "__end__" ∧
      record.state = .completed :=
  ⟨_, _, _, rfl, rfl, rfl, rfl, rfl⟩

theorem reachable_shippingRun {s : Sagas ℕ ℕ ℕ}
    (h : (platform ℕ ℕ ℕ).system.exec bothStarted shippingRun = some s) :
    (platform ℕ ℕ ℕ).system.Reachable WellStarted s := by
  refine reachable_bothStarted.exec_of_mem _ (fun a ha t => ?_) h
  rcases List.mem_append.1 ha with ha | ha
  · rw [List.mem_singleton.1 ha]
    trivial
  · rw [List.eq_of_mem_replicate ha]
    trivial

theorem loadSaga_tells_shipping :
    ∃ (s : Sagas ℕ ℕ ℕ) (task : SagaTask ℕ ℕ ℕ) (record : SagaRecord), s.tasks 0 = some task ∧
      loadSaga s.shared.rows task.request.saga_id = some record ∧ record.step_name = "__end__" ∧
        record.state = .completed ∧ Tells s.shared.rows task := by
  obtain ⟨s, task, record, he, ht, hrecord, hname, hstate⟩ := exec_shippingRun
  exact ⟨s, task, record, ht, hrecord, hname, hstate,
    loadSaga_tells (reachable_shippingRun he) ht⟩

theorem listSagas_shows_loadSaga_shipping :
    ∃ (s : Sagas ℕ ℕ ℕ) (records : List SagaRecord),
      (platform ℕ ℕ ℕ).system.Reachable WellStarted s ∧
      listSagas firstLiteral "saga_records" (some "shipping") s.shared.rows = some records ∧
      (records.map SagaRecord.saga_id).Nodup ∧
      ∀ record, record ∈ records ↔ ∃ i task, s.tasks i = some task ∧
        task.request.saga.name = "shipping" ∧
        loadSaga s.shared.rows task.request.saga_id = some record := by
  obtain ⟨s, task, record, he, -⟩ := exec_shippingRun
  have hquote : '\'' ∉ "shipping".toList := by decide
  have hselects : SelectsName "saga_records" "shipping" :=
    selectsName_iff_quote.2 ⟨readBefore_saga_records.1, hquote⟩
  have hs := reachable_shippingRun he
  obtain ⟨records, hrecords⟩ := listSagas_shows_loadSaga hs firstLiteral_runs hselects
  exact ⟨s, records, hs, hrecords⟩

end SagaListing
end Rszero
