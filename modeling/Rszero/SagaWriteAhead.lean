import Rszero.SagaLog
import Mathlib.Data.List.Count

/-!
# Write-ahead logging of a persistent saga

Every action is preceded by a request to record it, and every outcome of a compensation is followed
by one, so a run that loses none of these records has the rows that a restart needs. A run that
loses one has an action or a compensation without a row. Steps may share a name, so rows are counted
by name.
-/

namespace Rszero.PersistentSaga

variable {A C T : Type}

def requested (calls : List (Call A C T)) : List StepRecord :=
  calls.filterMap fun
    | ⟨.inr r, _⟩ => some r
    | _ => none

def lost (calls : List (Call A C T)) : List StepRecord :=
  calls.filterMap fun
    | ⟨.inr r, .error _⟩ => some r
    | _ => none

def invoked (calls : List (Call A C T)) : List (SagaStep A C) :=
  calls.filterMap fun
    | ⟨.inl (.execute step), _⟩ => some step
    | _ => none

def announces (name : String) (r : StepRecord) : Bool := r.step_name = name ∧ r.state = .running

def settles (name : String) (r : StepRecord) : Bool := r.step_name = name ∧ r.state = .compensated

def exhausts (name : String) (r : StepRecord) : Bool :=
  r.step_name = name ∧ r.state = .compensating ∧ r.error.isSome

/-- Before each cut every invoked action has its row, and in the end every compensation has. -/
structure WriteAhead (calls : List (Call A C T)) (result : SagaResult T) : Prop where
  actions : ∀ cut, cut <+: calls → ∀ name,
    (invoked cut).countP (fun step => step.name = name) ≤ (logged cut).countP (announces name)
  compensations : ∀ name,
    (compensated calls).countP (fun step => step.name = name) ≤ (logged calls).countP (settles name)
  exhausted : ∀ name,
    result.compensation_errors.countP (fun e => e.1 = name) ≤ (logged calls).countP (exhausts name)

/-- The record of the start of a step or of the outcome of a compensation. -/
def Needed (r : StepRecord) : Prop :=
  r.state = .running ∨ r.state = .compensated ∨ r.state = .compensating ∧ r.error.isSome

instance (r : StepRecord) : Decidable (Needed r) := inferInstanceAs (Decidable (_ ∨ _))

/-- The persister fails on no record that a restart needs. -/
def KeepsNeeded (calls : List (Call A C T)) : Prop := ∀ r ∈ lost calls, ¬ Needed r

theorem requested_append (calls calls' : List (Call A C T)) :
    requested (calls ++ calls') = requested calls ++ requested calls' := List.filterMap_append ..

theorem invoked_append (calls calls' : List (Call A C T)) :
    invoked (calls ++ calls') = invoked calls ++ invoked calls' := List.filterMap_append ..

theorem countP_requested (q : StepRecord → Bool) (calls : List (Call A C T)) :
    (requested calls).countP q = (logged calls).countP q + (lost calls).countP q := by
  induction calls with
  | nil => rfl
  | cons e calls ih =>
      rcases e with ⟨op | r, ans⟩
      · exact ih
      · change (r :: requested calls).countP q = _
        cases ans with
        | ok =>
            change _ = (r :: logged calls).countP q + (lost calls).countP q
            rw [List.countP_cons, List.countP_cons, ih]
            omega
        | error e =>
            change _ = (logged calls).countP q + (r :: lost calls).countP q
            rw [List.countP_cons, List.countP_cons, ih]
            omega

/-- A lost record leaves fewer rows than requests. -/
theorem countP_logged_lt {q : StepRecord → Bool} {calls : List (Call A C T)} {r : StepRecord}
    (hr : r ∈ lost calls) (hq : q r) : (logged calls).countP q < (requested calls).countP q := by
  have hlost : 0 < (lost calls).countP q := List.countP_pos_iff.2 ⟨r, hr, hq⟩
  rw [countP_requested]
  omega

/-- Where no needed record is lost, every request for one has its row. -/
theorem KeepsNeeded.countP_logged {q : StepRecord → Bool} {calls cut : List (Call A C T)}
    (hkeeps : KeepsNeeded calls) (hq : ∀ r, q r → Needed r) (hcut : cut <+: calls) :
    (requested cut).countP q = (logged cut).countP q := by
  rw [countP_requested, Nat.add_eq_left, List.countP_eq_zero]
  intro r hr hqr
  exact hkeeps r ((hcut.sublist.filterMap _).subset hr) (hq r hqr)

theorem needed_of_announces {name : String} (r : StepRecord) (h : announces name r) : Needed r := by
  simp only [announces, decide_eq_true_eq] at h
  exact .inl h.2

theorem needed_of_settles {name : String} (r : StepRecord) (h : settles name r) : Needed r := by
  simp only [settles, decide_eq_true_eq] at h
  exact .inr (.inl h.2)

theorem needed_of_exhausts {name : String} (r : StepRecord) (h : exhausts name r) : Needed r := by
  simp only [exhausts, decide_eq_true_eq] at h
  exact .inr (.inr h.2)

/-- Every invoked action has been requested to be recorded. -/
def Announced (calls : List (Call A C T)) : Prop := ∀ name,
  (invoked calls).countP (fun step => step.name = name) ≤
    (requested calls).countP (announces name)

/-- The requests are those for the actions that were invoked and the compensations that ended. -/
structure Balanced (calls : List (Call A C T)) (errors : StepErrors) : Prop where
  actions : ∀ name, (invoked calls).countP (fun step => step.name = name) =
    (requested calls).countP (announces name)
  compensations : ∀ name, (compensated calls).countP (fun step => step.name = name) =
    (requested calls).countP (settles name)
  exhausted : ∀ name, errors.countP (fun e => e.1 = name) =
    (requested calls).countP (exhausts name)

theorem Announced.append {calls : List (Call A C T)} (h : Announced calls) {e : Call A C T}
    (he : invoked [e] = []) : Announced (calls ++ [e]) := by
  intro name
  rw [invoked_append, he, List.append_nil, requested_append, List.countP_append]
  exact (h name).trans (Nat.le_add_right _ _)

namespace Balanced

variable (p : PersistentSaga A C) (step : SagaStep A C) {calls : List (Call A C T)}
  {errors : StepErrors}

theorem announced (h : Balanced calls errors) : Announced calls := fun name => (h.actions name).le

theorem append (h : Balanced calls errors) {calls' : List (Call A C T)} {errors' : StepErrors}
    (h' : Balanced calls' errors') : Balanced (calls ++ calls') (errors ++ errors') where
  actions name := by
    rw [invoked_append, requested_append, List.countP_append, List.countP_append, h.actions,
      h'.actions]
  compensations name := by
    rw [compensated_append, requested_append, List.countP_append, List.countP_append,
      h.compensations, h'.compensations]
  exhausted name := by
    rw [requested_append, List.countP_append, List.countP_append, h.exhausted, h'.exhausted]

theorem record (h : Balanced calls errors) {r : StepRecord} (hr : ¬ Needed r)
    (ans : Except RszeroError Unit) : Balanced (calls ++ [⟨.inr r, ans⟩]) errors := by
  simp only [Needed, not_or] at hr
  have hone : Balanced [(⟨.inr r, ans⟩ : Call A C T)] [] :=
    ⟨fun name => by simp [invoked, requested, announces, hr.1],
      fun name => by simp [compensated, requested, settles, hr.2.1],
      fun name => by simpa [requested, exhausts] using fun _ => not_and.1 hr.2.2⟩
  simpa using h.append hone

theorem execute (h : Balanced calls errors) (ans₁ : Except RszeroError Unit)
    (ans₂ : Except RszeroError T) :
    Balanced (calls ++ [⟨.inr (p.record step.name .running none), ans₁⟩] ++
      [⟨.inl (.execute step), ans₂⟩]) errors := by
  have htwo : Balanced [(⟨.inr (p.record step.name .running none), ans₁⟩ : Call A C T),
      ⟨.inl (.execute step), ans₂⟩] [] :=
    ⟨fun name => by simp [invoked, requested, announces, PersistentSaga.record],
      fun name => by simp [compensated, requested, settles, PersistentSaga.record],
      fun name => by simp [requested, exhausts, PersistentSaga.record]⟩
  simpa using h.append htwo

theorem compensated (h : Balanced calls errors) (ans : Except RszeroError Unit) :
    Balanced (calls ++ [⟨.inl (.compensate step), .ok ()⟩] ++
      [⟨.inr (p.record step.name .compensated none), ans⟩]) errors := by
  have htwo : Balanced [(⟨.inl (.compensate step), .ok ()⟩ : Call A C T),
      ⟨.inr (p.record step.name .compensated none), ans⟩] [] :=
    ⟨fun name => by simp [invoked, requested, announces, PersistentSaga.record],
      fun name => by
        simp [PersistentSaga.compensated, requested, settles, PersistentSaga.record],
      fun name => by simp [requested, exhausts, PersistentSaga.record]⟩
  simpa using h.append htwo

theorem uncompensated (h : Balanced calls errors) (ce : RszeroError) :
    Balanced (calls ++ [⟨.inl (.compensate step), .error ce⟩]) errors := by
  have hone : Balanced [(⟨.inl (.compensate step), .error ce⟩ : Call A C T)] [] :=
    ⟨fun name => by simp [invoked, requested],
      fun name => by simp [PersistentSaga.compensated, requested],
      fun name => by simp [requested]⟩
  simpa using h.append hone

theorem givenUp (h : Balanced calls errors) (ce e : RszeroError)
    (ans : Except RszeroError Unit) :
    Balanced (calls ++ [⟨.inl (.compensate step), .error ce⟩] ++
        [⟨.inr (p.record step.name .compensating (some ce.toString)), ans⟩])
      (errors ++ [(step.name, e)]) := by
  have htwo : Balanced [(⟨.inl (.compensate step), .error ce⟩ : Call A C T),
      ⟨.inr (p.record step.name .compensating (some ce.toString)), ans⟩] [(step.name, e)] :=
    ⟨fun name => by simp [invoked, requested, announces, PersistentSaga.record],
      fun name => by
        simp [PersistentSaga.compensated, requested, settles, PersistentSaga.record],
      fun name => by simp [requested, exhausts, PersistentSaga.record]⟩
  simpa using h.append htwo

/-- With a row for every request that matters, nothing is left without its row. -/
theorem writeAhead_iff {result : SagaResult T} (h : Balanced calls result.compensation_errors)
    (hannounced : ∀ cut, cut <+: calls → Announced cut) :
    WriteAhead calls result ↔ KeepsNeeded calls := by
  constructor
  · intro hahead r hr hneeded
    rcases hneeded with hstate | hstate | ⟨hstate, herror⟩
    · have hrows := hahead.actions calls List.prefix_rfl r.step_name
      have hshort := countP_logged_lt (q := announces r.step_name) hr (by simp [announces, hstate])
      rw [h.actions] at hrows
      omega
    · have hrows := hahead.compensations r.step_name
      have hshort := countP_logged_lt (q := settles r.step_name) hr (by simp [settles, hstate])
      rw [h.compensations] at hrows
      omega
    · have hrows := hahead.exhausted r.step_name
      have hshort := countP_logged_lt (q := exhausts r.step_name) hr
        (by simp [exhausts, hstate, herror])
      rw [h.exhausted] at hrows
      omega
  · intro hkeeps
    constructor
    · intro cut hcut name
      rw [← hkeeps.countP_logged needed_of_announces hcut]
      exact hannounced cut hcut name
    · intro name
      rw [← hkeeps.countP_logged needed_of_settles List.prefix_rfl]
      exact (h.compensations name).le
    · intro name
      rw [← hkeeps.countP_logged needed_of_exhausts List.prefix_rfl]
      exact (h.exhausted name).le

end Balanced

section Run

variable (p : PersistentSaga A C) {start : Call A C T} {calls : List (Call A C T)}
  {errors : StepErrors}

/-- From the first call on, every call leaves all invoked actions announced; the program ends with
balanced calls. -/
abbrev Balances {α : Type} (start : Call A C T) (q : Program A C T α) (reported : α → StepErrors)
    (past : List (Call A C T)) : Prop :=
  q.Ensures (fun _ => True) (fun past' e => Announced (past'.tail ++ [e])) (fun past' a =>
    ∃ calls, past' = start :: calls ∧ Balanced calls (reported a)) past

theorem persist_balances {α : Type} {r : StepRecord} {q : Program A C T α}
    {reported : α → StepErrors} (h : Announced calls)
    (hq : ∀ ans, Balances start q reported (start :: (calls ++ [⟨.inr r, ans⟩]))) :
    Balances start (persist r q) reported (start :: calls) := by
  intro ans _
  exact ⟨h.append rfl, hq ans⟩

theorem retryCompensation_balances (step : SagaStep A C) (retries : List ℕ)
    (h : Balanced calls errors) :
    Balances start (p.retryCompensation (T := T) step errors retries) id (start :: calls) := by
  induction retries generalizing errors calls with
  | nil => exact ⟨calls, rfl, h⟩
  | cons retry retries ih =>
      intro ans _
      refine ⟨h.announced.append rfl, ?_⟩
      cases ans with
      | ok =>
          refine persist_balances (h.announced.append rfl) (fun ans => ?_)
          exact ⟨_, rfl, h.compensated p step ans⟩
      | error ce =>
          have herror := h.uncompensated step ce
          by_cases hretry : retry = 2
          · simp only [if_pos hretry]
            refine persist_balances herror.announced (fun ans => ?_)
            exact ih (h.givenUp p step ce _ ans)
          · simp only [if_neg hretry]
            exact ih herror

theorem compensateAll_balances (is : List ℕ) (his : ∀ i ∈ is, i < p.saga.steps.length)
    (h : Balanced calls errors) :
    Balances start (p.compensateAll (T := T) errors is) id (start :: calls) := by
  induction is generalizing errors calls with
  | nil => exact ⟨calls, rfl, h⟩
  | cons i is ih =>
      have hi : i < p.saga.steps.length := his i (by simp)
      unfold compensateAll
      rw [List.getElem?_eq_getElem hi]
      refine (p.retryCompensation_balances _ (List.range 3) h).bind ?_
      rintro _ errors' ⟨calls', rfl, h'⟩
      exact ih (fun j hj => his j (by simp [hj])) h'

theorem executeSteps_balances (completed : List String) (outputs : List T)
    (rest : List (SagaStep A C)) (hlen : completed.length + rest.length = p.saga.steps.length)
    (h : Balanced calls []) :
    Balances start (p.executeSteps completed outputs rest) SagaResult.compensation_errors
      (start :: calls) := by
  induction rest generalizing completed outputs calls with
  | nil =>
      refine persist_balances h.announced (fun ans => ?_)
      exact ⟨_, rfl, h.record (by simp [Needed, PersistentSaga.record]) ans⟩
  | cons step rest ih =>
      refine persist_balances h.announced (fun ans₁ ans₂ _ => ?_)
      have hexecute := h.execute p step ans₁ ans₂
      refine ⟨hexecute.announced, ?_⟩
      cases ans₂ with
      | ok output =>
          refine persist_balances hexecute.announced (fun ans₃ => ?_)
          refine ih _ _ ?_ (hexecute.record (by simp [Needed, PersistentSaga.record]) ans₃)
          simp only [List.length_append, List.length_cons, List.length_nil] at hlen ⊢
          omega
      | error e =>
          refine persist_balances hexecute.announced (fun ans₃ => ?_)
          have hfailed := hexecute.record (r := p.record step.name .failed (some e.toString))
            (by simp [Needed, PersistentSaga.record]) ans₃
          refine persist_balances hfailed.announced (fun ans₄ => ?_)
          have hcompensate := hfailed.record (r := p.record "__compensate__" .compensating none)
            (by simp [Needed, PersistentSaga.record]) ans₄
          refine (p.compensateAll_balances _ ?_ hcompensate).bind ?_
          · intro i hi
            simp only [List.mem_reverse, List.mem_range, List.length_cons] at hi hlen
            omega
          · rintro _ errors' ⟨calls', rfl, h'⟩
            refine persist_balances h'.announced (fun ans₅ => ?_)
            exact ⟨_, rfl, h'.record (by simp [Needed, PersistentSaga.record]) ans₅⟩

end Run

/-- Whatever the actions, the compensations and the persister do, the actions and the compensations
of the run have their rows exactly when the persister fails on none of the rows that a restart
needs. The first call of a run is the record of its own start. -/
theorem writeAhead_iff_keepsNeeded (p : PersistentSaga A C)
    (env : CallProgram.Environment (SagaCall.Answer (A := A) (C := C) T))
    (persister : List (Call A C T) → (r : StepRecord) → Except RszeroError Unit) :
    ∃ started calls result,
      CallProgram.run (CallProgram.withAux env persister) [] p.execute =
          (⟨.inr (p.record "__start__" .running none), started⟩ :: calls, some result) ∧
        (WriteAhead calls result ↔ KeepsNeeded calls) := by
  set full := CallProgram.withAux env persister
  set start : Call A C T := ⟨.inr (p.record "__start__" .running none), full [] (.inr _)⟩
  have hempty : Balanced ([] : List (Call A C T)) [] :=
    ⟨fun _ => rfl, fun _ => rfl, fun _ => rfl⟩
  have hbalances : Balances start (p.executeSteps [] [] p.saga.steps)
      SagaResult.compensation_errors [start] :=
    p.executeSteps_balances [] [] p.saga.steps (by simp) hempty
  obtain ⟨result, hresult, calls, hcalls, hbalanced⟩ :=
    hbalances.result full (fun _ _ => trivial)
  refine ⟨_, calls, result, Prod.ext hcalls hresult, hbalanced.writeAhead_iff ?_⟩
  intro cut hcut
  rcases List.eq_nil_or_concat' cut with rfl | ⟨before, e, rfl⟩
  · exact hempty.announced
  · obtain ⟨after, rfl⟩ := hcut
    have hsplit : start :: (before ++ [e] ++ after) = (start :: before) ++ e :: after := by simp
    exact hbalances.guarantee (fun _ _ => trivial) (hcalls.trans hsplit) (by simp)

def announceFails : List (Call ℕ ℕ ℕ) → (r : StepRecord) → Except RszeroError Unit
  | _, r =>
      if r.step_name = "deduct_stock" ∧ r.state = .running then .error (.database "down" none)
      else .ok ()

/-- The action of the first step is called all the same. -/
theorem announceFails_not_writeAhead :
    ∃ started calls result,
      CallProgram.run (CallProgram.withAux chargeFails announceFails) [] orderSaga.execute =
          (⟨.inr (orderSaga.record "__start__" .running none), started⟩ :: calls, some result) ∧
        ¬ WriteAhead calls result := by
  refine ⟨_, _, _, rfl, fun hahead => ?_⟩
  exact absurd (hahead.actions _ (List.take_prefix 2 _) "deduct_stock") (by decide +kernel)

end Rszero.PersistentSaga
