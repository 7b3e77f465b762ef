import Rszero.SagaPersistence
import Mathlib.Data.List.Nodup
import Mathlib.Data.Set.Subsingleton

/-!
# The log of a persistent saga after a crash

With a persister that always succeeds, the records that a run has written at any cut tell which
steps stand, up to the one step whose call has ended and whose record is not written yet. A step is
known in the log by its name, so the names have to be distinct.
-/

namespace Rszero.PersistentSaga

variable {A C T : Type}

def logged (past : List (Call A C T)) : List StepRecord :=
  past.filterMap fun
    | ⟨.inr r, .ok ()⟩ => some r
    | _ => none

def Recorded (past : List (Call A C T)) (step_name : String) (state : SagaState) : Prop :=
  ∃ r ∈ logged past, r.step_name = step_name ∧ r.state = state

def Ended (past : List (Call A C T)) : Prop := ∃ r ∈ logged past, r.step_name = "__end__"

def executed (past : List (Call A C T)) : List (SagaStep A C) :=
  past.filterMap fun
    | ⟨.inl (.execute step), .ok _⟩ => some step
    | _ => none

def compensated (past : List (Call A C T)) : List (SagaStep A C) :=
  past.filterMap fun
    | ⟨.inl (.compensate step), .ok _⟩ => some step
    | _ => none

/-- The log shows the step as completed and not compensated. -/
def ShownStanding (past : List (Call A C T)) (step : SagaStep A C) : Prop :=
  Recorded past step.name .completed ∧ ¬ Recorded past step.name .compensated

/-- The action of the step succeeded, and its compensation has not. -/
def Standing (past : List (Call A C T)) (step : SagaStep A C) : Prop :=
  step ∈ executed past ∧ step ∉ compensated past

def callee : Call A C T → Option (SagaStep A C)
  | ⟨.inl (.execute step), _⟩ | ⟨.inl (.compensate step), _⟩ => some step
  | ⟨.inr _, _⟩ => none

def InFlight (past : List (Call A C T)) (step : SagaStep A C) : Prop :=
  past.getLast?.bind callee = some step

def reservedNames : List String := ["__start__", "__compensate__", "__end__"]

structure WellNamed (p : PersistentSaga A C) : Prop where
  distinct : (p.saga.steps.map SagaStep.name).Nodup
  unreserved : ∀ step ∈ p.saga.steps, step.name ∉ reservedNames

/-- What a crash between `cut` and `rest` leaves in the log. -/
structure CrashConsistent (p : PersistentSaga A C) (cut rest : List (Call A C T)) : Prop where
  announced : ∀ before step ans after, cut = before ++ ⟨.inl (.execute step), ans⟩ :: after →
    Recorded before step.name .running
  one_differs :
    {step ∈ p.saga.steps | ¬ (ShownStanding cut step ↔ Standing cut step)}.Subsingleton
  differs_inFlight : ∀ step ∈ p.saga.steps, ¬ (ShownStanding cut step ↔ Standing cut step) →
    InFlight cut step
  ended : Ended cut → ∀ e ∈ rest, callee e = none

section Append

variable {past : List (Call A C T)} {name : String} {state : SagaState} {step : SagaStep A C}

theorem logged_append (past past' : List (Call A C T)) :
    logged (past ++ past') = logged past ++ logged past' := List.filterMap_append ..

@[simp] theorem logged_record (r : StepRecord) :
    logged [(⟨.inr r, .ok ()⟩ : Call A C T)] = [r] := rfl

@[simp] theorem logged_call (op : SagaCall A C) (ans : SagaCall.Answer T op) :
    logged [(⟨.inl op, ans⟩ : Call A C T)] = [] := rfl

@[simp] theorem recorded_call {op : SagaCall A C} {ans : SagaCall.Answer T op} :
    Recorded (past ++ [⟨.inl op, ans⟩]) name state ↔ Recorded past name state := by
  simp [Recorded, logged_append]

@[simp] theorem recorded_record {r : StepRecord} :
    Recorded (past ++ [⟨.inr r, .ok ()⟩]) name state ↔
      Recorded past name state ∨ r.step_name = name ∧ r.state = state := by
  simp [Recorded, logged_append, or_and_right, exists_or]

@[simp] theorem ended_call {op : SagaCall A C} {ans : SagaCall.Answer T op} :
    Ended (past ++ [⟨.inl op, ans⟩]) ↔ Ended past := by
  simp [Ended, logged_append]

@[simp] theorem ended_record {r : StepRecord} :
    Ended (past ++ [(⟨.inr r, .ok ()⟩ : Call A C T)]) ↔ Ended past ∨ r.step_name = "__end__" := by
  simp [Ended, logged_append, or_and_right, exists_or]

theorem executed_append (past past' : List (Call A C T)) :
    executed (past ++ past') = executed past ++ executed past' := List.filterMap_append ..

theorem compensated_append (past past' : List (Call A C T)) :
    compensated (past ++ past') = compensated past ++ compensated past' := List.filterMap_append ..

end Append

structure Agrees (past : List (Call A C T)) (step : SagaStep A C) : Prop where
  completed : Recorded past step.name .completed ↔ step ∈ executed past
  compensated : Recorded past step.name .compensated ↔ step ∈ compensated past

namespace Agrees

variable {past : List (Call A C T)} {step step' : SagaStep A C}

theorem shown_iff (h : Agrees past step) : ShownStanding past step ↔ Standing past step := by
  rw [ShownStanding, Standing, h.completed, h.compensated]

/-- A call in which the step neither executes nor is compensated. -/
theorem call (h : Agrees past step) {op : SagaCall A C} {ans : SagaCall.Answer T op}
    (hexecuted : step ∉ executed [(⟨.inl op, ans⟩ : Call A C T)])
    (hcompensated : step ∉ PersistentSaga.compensated [(⟨.inl op, ans⟩ : Call A C T)]) :
    Agrees (past ++ [⟨.inl op, ans⟩]) step := by
  constructor
  · rw [recorded_call, executed_append, List.mem_append, h.completed]
    exact (or_iff_left hexecuted).symm
  · rw [recorded_call, compensated_append, List.mem_append, h.compensated]
    exact (or_iff_left hcompensated).symm

theorem call_of_ne (h : Agrees past step) {op : SagaCall A C} {ans : SagaCall.Answer T op}
    (hne : callee (⟨.inl op, ans⟩ : Call A C T) ≠ some step) :
    Agrees (past ++ [⟨.inl op, ans⟩]) step := by
  cases op with
  | execute step' =>
      have hstep : step ≠ step' := fun heq => hne (congrArg some heq.symm)
      cases ans with
      | ok output => exact h.call (by simpa [executed] using hstep) List.not_mem_nil
      | error e => exact h.call List.not_mem_nil List.not_mem_nil
  | compensate step' =>
      have hstep : step ≠ step' := fun heq => hne (congrArg some heq.symm)
      cases ans with
      | ok => exact h.call List.not_mem_nil (by simpa [PersistentSaga.compensated] using hstep)
      | error e => exact h.call List.not_mem_nil List.not_mem_nil

theorem record_of_ne (h : Agrees past step) {r : StepRecord}
    (hr : r.step_name = step.name → r.state ≠ .completed ∧ r.state ≠ .compensated) :
    Agrees (past ++ [⟨.inr r, .ok ()⟩]) step := by
  constructor
  · rw [recorded_record, executed_append, List.mem_append, h.completed]
    exact or_congr_right (iff_of_false (fun h => (hr h.1).1 h.2) List.not_mem_nil)
  · rw [recorded_record, compensated_append, List.mem_append, h.compensated]
    exact or_congr_right (iff_of_false (fun h => (hr h.1).2 h.2) List.not_mem_nil)

/-- The action succeeds, and the record of it is written. -/
theorem execute_ok (h : Agrees past step) (output : T) {r : StepRecord}
    (hname : r.step_name = step.name) (hstate : r.state = .completed) :
    Agrees (past ++ [⟨.inl (.execute step), .ok output⟩] ++ [⟨.inr r, .ok ()⟩]) step := by
  constructor
  · rw [recorded_record, executed_append, executed_append]
    exact iff_of_true (.inr ⟨hname, hstate⟩) (by simp [executed])
  · rw [recorded_record, recorded_call, hstate, h.compensated, compensated_append,
      compensated_append]
    simp [PersistentSaga.compensated]

/-- The compensation succeeds, and the record of it is written. -/
theorem compensate_ok (h : Agrees past step) {r : StepRecord}
    (hname : r.step_name = step.name) (hstate : r.state = .compensated) :
    Agrees (past ++ [⟨.inl (.compensate step), .ok ()⟩] ++ [⟨.inr r, .ok ()⟩]) step := by
  constructor
  · rw [recorded_record, recorded_call, hstate, h.completed, executed_append, executed_append]
    simp [executed]
  · rw [recorded_record, compensated_append, compensated_append]
    exact iff_of_true (.inr ⟨hname, hstate⟩) (by simp [PersistentSaga.compensated])

end Agrees

section Run

variable {p : PersistentSaga A C} {past : List (Call A C T)} {step : SagaStep A C}

def Persisted : Call A C T → Prop
  | ⟨.inr _, ans⟩ => ans = .ok ()
  | ⟨.inl _, _⟩ => True

/-- What a call guarantees after the calls before it. -/
structure Safe (p : PersistentSaga A C) (past : List (Call A C T)) (e : Call A C T) : Prop where
  announced : ∀ step, e.1 = .inl (.execute step) → Recorded past step.name .running
  inFlight : ∀ step ∈ p.saga.steps,
    ¬ (ShownStanding (past ++ [e]) step ↔ Standing (past ++ [e]) step) → callee e = some step
  unended : Ended past → callee e = none

structure Settled (p : PersistentSaga A C) (past : List (Call A C T)) : Prop where
  agrees : ∀ step ∈ p.saga.steps, Agrees past step
  unended : ¬ Ended past

namespace WellNamed

theorem eq_of_name (hp : WellNamed p) {step' : SagaStep A C} (hstep : step ∈ p.saga.steps)
    (hstep' : step' ∈ p.saga.steps) (hname : step.name = step'.name) : step = step' :=
  List.inj_on_of_nodup_map hp.distinct hstep hstep' hname

theorem ne_end (hp : WellNamed p) (hstep : step ∈ p.saga.steps) : step.name ≠ "__end__" := by
  intro hname
  have hreserved := hp.unreserved step hstep
  rw [hname] at hreserved
  exact hreserved (by simp [reservedNames])

end WellNamed

namespace Settled

theorem initial : Settled p ([] : List (Call A C T)) where
  agrees step _ := ⟨by simp [Recorded, logged, executed], by simp [Recorded, logged, compensated]⟩
  unended := by simp [Ended, logged]

theorem record (h : Settled p past) {r : StepRecord}
    (hstate : r.state ≠ .completed ∧ r.state ≠ .compensated) (hname : r.step_name ≠ "__end__") :
    Settled p (past ++ [⟨.inr r, .ok ()⟩]) where
  agrees step hstep := (h.agrees step hstep).record_of_ne (fun _ => hstate)
  unended := by simpa [hname] using h.unended

theorem execute_error (h : Settled p past) (step : SagaStep A C) (e : RszeroError) :
    Settled p (past ++ [⟨.inl (.execute step), .error e⟩]) where
  agrees _ hstep := (h.agrees _ hstep).call List.not_mem_nil List.not_mem_nil
  unended := by simpa using h.unended

theorem compensate_error (h : Settled p past) (step : SagaStep A C) (e : RszeroError) :
    Settled p (past ++ [⟨.inl (.compensate step), .error e⟩]) where
  agrees _ hstep := (h.agrees _ hstep).call List.not_mem_nil List.not_mem_nil
  unended := by simpa using h.unended

/-- The record of a call settles the step of the call; the other steps have other names. -/
theorem call_record (hp : WellNamed p) (h : Settled p past) (hstep : step ∈ p.saga.steps)
    (op : SagaCall A C) (ans : SagaCall.Answer T op) {r : StepRecord}
    (hcallee : callee (⟨.inl op, ans⟩ : Call A C T) = some step) (hname : r.step_name = step.name)
    (hagrees : Agrees (past ++ [⟨.inl op, ans⟩] ++ [⟨.inr r, .ok ()⟩]) step) :
    Settled p (past ++ [⟨.inl op, ans⟩] ++ [⟨.inr r, .ok ()⟩]) where
  agrees step' hstep' := by
    by_cases heq : step' = step
    · exact heq ▸ hagrees
    · have hcall : Agrees (past ++ [⟨.inl op, ans⟩]) step' :=
        (h.agrees step' hstep').call_of_ne (by simpa [hcallee] using Ne.symm heq)
      refine hcall.record_of_ne (fun hr => ?_)
      exact absurd (hp.eq_of_name hstep' hstep (hr.symm.trans hname)) heq
  unended := by
    rw [ended_record, ended_call, hname]
    exact not_or.2 ⟨h.unended, hp.ne_end hstep⟩

theorem safe_call (h : Settled p past) (op : SagaCall A C) (ans : SagaCall.Answer T op)
    (hannounced : ∀ step, op = .execute step → Recorded past step.name .running) :
    Safe p past ⟨.inl op, ans⟩ where
  announced step hop := hannounced step (Sum.inl.inj hop)
  inFlight step hstep hdiffers := by
    by_contra hne
    exact hdiffers ((h.agrees step hstep).call_of_ne hne).shown_iff
  unended hended := absurd hended h.unended

end Settled

/-- Each call keeps the log consistent, and the program ends in `Q`. -/
abbrev Keeps {α : Type} (p : PersistentSaga A C) (q : Program A C T α)
    (Q : List (Call A C T) → Prop) (past : List (Call A C T)) : Prop :=
  q.Ensures Persisted (Safe p) (fun past' _ => Q past') past

theorem persist_keeps {α : Type} {r : StepRecord} {q : Program A C T α}
    {Q : List (Call A C T) → Prop}
    (hagrees : ∀ step ∈ p.saga.steps, Agrees (past ++ [⟨.inr r, .ok ()⟩]) step)
    (h : Keeps p q Q (past ++ [⟨.inr r, .ok ()⟩])) : Keeps p (persist r q) Q past := by
  intro ans hans
  obtain rfl : ans = .ok () := hans
  refine ⟨⟨nofun, ?_, fun _ => rfl⟩, h⟩
  intro step hstep hdiffers
  exact absurd (hagrees step hstep).shown_iff hdiffers

theorem retryCompensation_keeps (hp : WellNamed p) (hstep : step ∈ p.saga.steps)
    (errors : StepErrors) (retries : List ℕ) (h : Settled p past) :
    Keeps p (p.retryCompensation (T := T) step errors retries) (Settled p) past := by
  induction retries generalizing errors past with
  | nil => exact h
  | cons retry retries ih =>
      intro ans _
      refine ⟨h.safe_call (.compensate step) ans (by rintro _ ⟨⟩), ?_⟩
      cases ans with
      | ok =>
          have hsettled := h.call_record hp hstep (.compensate step) (.ok ())
            (r := p.record step.name .compensated none) rfl rfl
            ((h.agrees step hstep).compensate_ok rfl rfl)
          exact persist_keeps hsettled.agrees hsettled
      | error ce =>
          have herror := h.compensate_error step ce
          by_cases hretry : retry = 2
          · simp only [if_pos hretry]
            have hrecord := herror.record (r := p.record step.name .compensating (some ce.toString))
              ⟨nofun, nofun⟩ (hp.ne_end hstep)
            exact persist_keeps hrecord.agrees (ih _ hrecord)
          · simp only [if_neg hretry]
            exact ih _ herror

theorem compensateAll_keeps (hp : WellNamed p) (errors : StepErrors) (is : List ℕ)
    (his : ∀ i ∈ is, i < p.saga.steps.length) (h : Settled p past) :
    Keeps p (p.compensateAll (T := T) errors is) (Settled p) past := by
  induction is generalizing errors past with
  | nil => exact h
  | cons i is ih =>
      have hi : i < p.saga.steps.length := his i (by simp)
      unfold compensateAll
      rw [List.getElem?_eq_getElem hi]
      refine (retryCompensation_keeps hp (List.getElem_mem hi) errors _ h).bind ?_
      intro past' errors' hpast'
      exact ih errors' (fun j hj => his j (by simp [hj])) hpast'

theorem executeSteps_keeps (hp : WellNamed p) (completed : List String) (outputs : List T)
    (rest : List (SagaStep A C)) (hrest : ∀ step ∈ rest, step ∈ p.saga.steps)
    (hlen : completed.length + rest.length = p.saga.steps.length) (h : Settled p past) :
    Keeps p (p.executeSteps completed outputs rest) (fun _ => True) past := by
  induction rest generalizing completed outputs past with
  | nil =>
      refine persist_keeps ?_ trivial
      intro step hstep
      exact (h.agrees step hstep).record_of_ne (fun hname => absurd hname.symm (hp.ne_end hstep))
  | cons step rest ih =>
      have hstep : step ∈ p.saga.steps := hrest step (by simp)
      have hrunning := h.record (r := p.record step.name .running none) ⟨nofun, nofun⟩
        (hp.ne_end hstep)
      refine persist_keeps hrunning.agrees ?_
      intro ans _
      constructor
      · refine hrunning.safe_call (.execute step) ans ?_
        intro step' hstep'
        obtain rfl := SagaCall.execute.inj hstep'
        exact recorded_record.2 (.inr ⟨rfl, rfl⟩)
      cases ans with
      | ok output =>
          have hsettled := hrunning.call_record hp hstep (.execute step) (.ok output)
            (r := p.record step.name .completed none) rfl rfl
            ((hrunning.agrees step hstep).execute_ok output rfl rfl)
          refine persist_keeps hsettled.agrees (ih _ _ ?_ ?_ hsettled)
          · exact fun step' hstep' => hrest step' (by simp [hstep'])
          · simp only [List.length_append, List.length_cons, List.length_nil] at hlen ⊢
            omega
      | error e =>
          have herror := hrunning.execute_error step e
          have hfailed := herror.record (r := p.record step.name .failed (some e.toString))
            ⟨nofun, nofun⟩ (hp.ne_end hstep)
          have hcompensate := hfailed.record (r := p.record "__compensate__" .compensating none)
            ⟨nofun, nofun⟩ (by simp [PersistentSaga.record])
          refine persist_keeps hfailed.agrees (persist_keeps hcompensate.agrees ?_)
          refine (compensateAll_keeps hp [] _ ?_ hcompensate).bind ?_
          · intro i hi
            simp only [List.mem_reverse, List.mem_range, List.length_cons] at hi hlen
            omega
          · intro past' errors hpast'
            refine persist_keeps ?_ trivial
            intro step' hstep'
            exact (hpast'.agrees step' hstep').record_of_ne (fun _ => ⟨nofun, nofun⟩)

theorem execute_keeps (hp : WellNamed p) :
    Keeps p (p.execute (T := T)) (fun _ => True) [] := by
  have hstart := (Settled.initial (p := p) (T := T)).record
    (r := p.record "__start__" .running none) ⟨nofun, nofun⟩ (by simp [PersistentSaga.record])
  exact persist_keeps hstart.agrees
    (executeSteps_keeps hp [] [] _ (fun _ hstep => hstep) (by simp) hstart)

end Run

theorem Ended.mono {past past' : List (Call A C T)} (h : Ended past) : Ended (past ++ past') := by
  obtain ⟨r, hr, hname⟩ := h
  exact ⟨r, by simp [logged_append, hr], hname⟩

/-- Cut the run of a saga with distinct names and a persister that always succeeds anywhere: every
action was announced before, the log and the run differ at most in the step in flight, and the saga
is recorded as ended only when nothing more will be called. -/
theorem log_is_crash_consistent (p : PersistentSaga A C) (hp : WellNamed p)
    (env : CallProgram.Environment (SagaCall.Answer (A := A) (C := C) T))
    {cut rest : List (Call A C T)}
    (hcut : (CallProgram.run (CallProgram.withAux env (fun _ _ => .ok ())) [] p.execute).1 =
      cut ++ rest) : CrashConsistent p cut rest := by
  have hsafe (before : List (Call A C T)) (e : Call A C T) (after : List (Call A C T))
      (hsplit : cut ++ rest = before ++ e :: after) : Safe p before e := by
    refine (execute_keeps hp).guarantee ?_ (hcut.trans hsplit) List.nil_prefix
    rintro past (op | r)
    · trivial
    · rfl
  have hinFlight : ∀ step ∈ p.saga.steps,
      ¬ (ShownStanding cut step ↔ Standing cut step) → InFlight cut step := by
    intro step hstep hdiffers
    rcases List.eq_nil_or_concat' cut with rfl | ⟨before, e, rfl⟩
    · exact absurd (Settled.initial.agrees step hstep).shown_iff hdiffers
    · have hcallee := (hsafe before e rest (by simp)).inFlight step hstep hdiffers
      simpa [InFlight] using hcallee
  refine ⟨?_, ?_, hinFlight, ?_⟩
  · rintro before step ans after rfl
    have hcall := hsafe before ⟨.inl (.execute step), ans⟩ (after ++ rest) (by simp)
    exact hcall.announced step rfl
  · rintro step ⟨hstep, hdiffers⟩ step' ⟨hstep', hdiffers'⟩
    have hlast := hinFlight step hstep hdiffers
    have hlast' := hinFlight step' hstep' hdiffers'
    exact Option.some.inj (hlast.symm.trans hlast')
  · intro hended e he
    obtain ⟨before, after, rfl⟩ := List.append_of_mem he
    exact (hsafe (cut ++ before) e after (by simp)).unended hended.mono

def orderSaga : PersistentSaga ℕ ℕ :=
  ⟨⟨"order", [⟨"deduct_stock", 0, 1⟩, ⟨"charge_payment", 2, 3⟩]⟩, "saga:1"⟩

def chargeFails : CallProgram.Environment (SagaCall.Answer (A := ℕ) (C := ℕ) ℕ)
  | _, .execute step =>
      if step.action = 2 then .error (.internal "declined" none) else .ok step.action
  | _, .compensate _ => .ok ()

def chargeFailsRun : List (Call ℕ ℕ ℕ) :=
  (CallProgram.run (CallProgram.withAux chargeFails (fun _ _ => .ok ())) [] orderSaga.execute).1

/-- The crash comes after the compensation and before its record. -/
theorem log_is_crash_consistent_chargeFails :
    WellNamed orderSaga ∧ chargeFailsRun.length = 11 ∧
      CrashConsistent orderSaga (chargeFailsRun.take 9) (chargeFailsRun.drop 9) :=
  have hp : WellNamed orderSaga := ⟨by simp [orderSaga], by simp [orderSaga, reservedNames]⟩
  ⟨hp, rfl, log_is_crash_consistent orderSaga hp chargeFails (List.take_append_drop 9 _).symm⟩

end Rszero.PersistentSaga
