import Rszero.OutboxBacklog

/-!
# Every row of the outbox is settled

Each failed attempt uses up one of the retries of its row, as the sweeper writes retry counts that
are up to date. With the backlog of the rows ahead this bounds the sweeps that a row waits for:
messages that never go through cannot keep the others back.
-/

namespace Rszero.Outbox

theorem failing_sweepNext (rest : List Swept) : (sweepNext rest).failing = none := by
  cases rest with
  | nil => rfl
  | cons row rest => rfl

theorem failing_succeeded (job : Job) : job.succeeded.failing = none := by
  unfold Job.succeeded
  cases job.caller with
  | publisher => rfl
  | sweeper retry_count rest => exact failing_sweepNext rest

theorem failing_eq_none {pc : Pc} (h : pc.due = []) : pc.failing = none := by
  cases pc with
  | recording msg_id retry_count rest => cases h
  | _ => rfl

/-- The count of the row, with the failure that is being recorded, grows with the failed
attempts. -/
def Counted (w : WorkerId) (msg_id : String) (base : ℤ) (x : State × List Event) : Prop :=
  ∃ row ∈ x.1.rows, row.msg_id = msg_id ∧
    row.retry_count + (if (x.1.workers w).failing = some msg_id then 1 else 0) =
      base + failedAttempts x.2 msg_id

section Counts

variable {config : Config} {s s' : State} {w v : WorkerId} {action : Action} {log log' : List Event}
  {target : Row} {base : ℤ} {msg_id : String}

/-- A step that fails no attempt and records none. -/
theorem Counted.keep (h : Counted w msg_id base (s, log)) (hmove : Move config s v action s')
    (hv : ∀ id retry_count rest, s.workers v = .recording id retry_count rest → action ≠ .update)
    (hlog : failedAttempts log' msg_id = failedAttempts log msg_id)
    (hfailing : (s'.workers w).failing = (s.workers w).failing) :
    Counted w msg_id base (s', log') := by
  obtain ⟨row, hrow, rfl, hcount⟩ := h
  obtain ⟨row', hrow', hid, hcount'⟩ := hmove.keeps_count hrow (hv _)
  refine ⟨row', hrow', hid, ?_⟩
  simp only [hfailing, hlog, hcount']
  exact hcount

namespace Steady

theorem counted_record (h : Steady config w target (s, log))
    (hmax : config.max_retries.toNat < 2 ^ 31) {id : String} {retry_count : ℤ}
    {rest : List Swept} (hw : s.workers w = .recording id retry_count rest)
    (hcounted : Counted w msg_id base (s, log)) :
    Counted w msg_id base ((s.withRows (updateRow s.rows id (recordFailure config retry_count))).put
      w (sweepNext rest), log) := by
  obtain ⟨row, hrow, rfl, hcount⟩ := hcounted
  refine ⟨_, mem_updateRow.2 ⟨row, hrow, rfl⟩, ?_⟩
  simp only [hw, Pc.failing, Option.some.injEq] at hcount
  simp only [State.put_workers_self, failing_sweepNext, reduceCtorEq, if_false]
  split_ifs with hid
  · obtain ⟨hlt, row', hrow', hid', rfl⟩ := h.sole.current id retry_count
      (by simp only [hw]; exact List.mem_cons_self)
    obtain rfl := List.inj_on_of_nodup_map h.consistent.unique hrow hrow' (hid.trans hid'.symm)
    have hnonneg := (h.consistent.rows row hrow).nonneg
    have hnext : asI32 (row.retry_count + 1) = row.retry_count + 1 :=
      asI32_eq (by omega) (by omega)
    rw [if_pos hid.symm] at hcount
    refine ⟨rfl, ?_⟩
    simp only [recordFailure, hnext]
    omega
  · rw [if_neg (Ne.symm hid)] at hcount
    exact ⟨rfl, hcount⟩

theorem counted_failJob {job : Job} (hw : s.workers w = .pushing job ∨ s.workers w = .marking job)
    (hcounted : Counted w msg_id base (s, log)) :
    Counted w msg_id base (s.put w job.failed, job.noteFailed log) := by
  obtain ⟨row, hrow, rfl, hcount⟩ := hcounted
  refine ⟨row, hrow, rfl, ?_⟩
  have hfailing : (s.workers w).failing = none := by
    rcases hw with hw | hw
    · rw [hw]; rfl
    · rw [hw]; rfl
  simp only [hfailing, reduceCtorEq, if_false] at hcount
  rw [State.put_workers_self]
  unfold Job.failed Job.noteFailed
  cases job.caller with
  | publisher => simpa [Pc.failing] using hcount
  | sweeper retry_count rest =>
      by_cases hid : job.msg_id = row.msg_id
      · simp only [Pc.failing, hid, if_true, failedAttempts, List.count_cons_self]
        simp only [failedAttempts] at hcount
        omega
      · have hne : Event.attemptFailed row.msg_id ≠ .attemptFailed job.msg_id := by
          simpa using Ne.symm hid
        simpa [Pc.failing, hid, failedAttempts, List.count_cons_of_ne hne] using hcount

theorem counted_next (h : Steady config w target (s, log))
    (hmax : config.max_retries.toNat < 2 ^ 31) (hmove : Move config s v action s')
    (hu : Undisturbed w target s ⟨v, action⟩) (hcounted : Counted w msg_id base (s, log)) :
    Counted w msg_id base (s', noteEvent config log s ⟨v, action⟩ s') := by
  by_cases hfree : s.workers v ≠ .selecting ∧ (s.workers v).due = []
  · obtain ⟨hselecting, hdue⟩ := hfree
    refine hcounted.keep hmove ?_ (failedAttempts_of_publishes hmove hdue msg_id) ?_
    · intro id retry_count rest hw
      rw [hw] at hdue
      cases hdue
    · by_cases hv : v = w
      · subst hv
        rw [failing_eq_none hdue, failing_eq_none (hmove.due_nil hselecting hdue)]
      · rw [hmove.other (Ne.symm hv)]
  obtain rfl : v = w := by
    by_contra hv
    exact hfree (h.sole.others v hv)
  have hkeep {s' : State} {action : Action} (hmove : Move config s v action s')
      (hv : ∀ id retry_count rest, s.workers v ≠ .recording id retry_count rest)
      (hlog : failedAttempts (noteEvent config log s ⟨v, action⟩ s') msg_id =
        failedAttempts log msg_id) (hfailing : (s'.workers v).failing = none) :
      Counted v msg_id base (s', noteEvent config log s ⟨v, action⟩ s') := by
    refine hcounted.keep hmove (fun id count rest hw => absurd hw (hv id count rest)) hlog ?_
    rw [hfailing]
    cases hpc : s.workers v with
    | recording id count rest => exact absurd hpc (hv id count rest)
    | _ => rfl
  cases hmove with
  | publish hw | publishInTxn hw | sweep hw | insert hw =>
      exact absurd (by simp [hw, Pc.due]) hfree
  | giveUp hw =>
      rcases hw with hw | ⟨uuid, topic, payload, hw⟩
      · exact hkeep (.giveUp (.inl hw)) (by simp [hw]) (by simp [noteEvent, hw])
          (by simp [Pc.failing])
      · exact absurd (by simp [hw, Pc.due]) hfree
  | select hw horder =>
      exact hkeep (.select hw horder) (by simp [hw]) (by simp [noteEvent, hw])
        (by simp [failing_sweepNext])
  | push hw =>
      exact hkeep (.push hw) (by simp [hw]) (by simp [noteEvent, hw, failedAttempts])
        (by simp [Pc.failing])
  | mark hw =>
      exact hkeep (.mark hw) (by simp [hw]) (by simp [noteEvent, hw]) (by simp [failing_succeeded])
  | record hw =>
      have hnote (t : State) : noteEvent config log s ⟨v, .update⟩ t = log := by
        simp [noteEvent, hw]
      rw [hnote]
      exact h.counted_record hmax hw hcounted
  | @failJob job hw =>
      have hnote : noteEvent config log s ⟨v, .fail⟩ (s.put v job.failed) = job.noteFailed log := by
        rcases hw with hw | hw
        · simp [noteEvent, hw]
        · simp [noteEvent, hw]
      rw [hnote]
      exact counted_failJob hw hcounted
  | failRecord hw => exact absurd rfl (hu.recorded (by simp [hw, Pc.failing]))

/-- What holds throughout the run is kept. -/
theorem next (h : Steady config w target (s, log)) (hmax : config.max_retries.toNat < 2 ^ 31)
    (hmove : Move config s v action s') (hsweep : SweptBy w ⟨v, action⟩) :
    Steady config w target (s', noteEvent config log s ⟨v, action⟩ s') where
  consistent := h.consistent.next hmax hmove
  sole := h.sole.next hmove h.consistent.unique hsweep
  row := by
    obtain ⟨row, hrow, hid, hcreated⟩ := h.row
    obtain ⟨row', hrow', hid', hcreated'⟩ := hmove.keeps_age hrow
    exact ⟨row', hrow', hid'.trans hid, hcreated'.trans hcreated⟩

end Steady
end Counts

section Runs

variable {config : Config} {w : WorkerId} {target : Row} {x y : State × List Event} {a : Label}

theorem Steady.step (h : Steady config w target x) (hmax : config.max_retries.toNat < 2 ^ 31)
    (hu : Undisturbed w target x.1 a) (hstep : (withLog config).step x a = some y) :
    Steady config w target y := by
  obtain ⟨s', hnext, rfl⟩ := TransitionSystem.exists_of_observe_step hstep
  exact h.next hmax (next_move hnext) hu.swept

theorem Steady.counted_step (h : Steady config w target x)
    (hmax : config.max_retries.toNat < 2 ^ 31) (hu : Undisturbed w target x.1 a)
    (hstep : (withLog config).step x a = some y) {base : ℤ} {msg_id : String}
    (hcounted : Counted w msg_id base x) : Counted w msg_id base y := by
  obtain ⟨s', hnext, rfl⟩ := TransitionSystem.exists_of_observe_step hstep
  exact h.counted_next hmax (next_move hnext) hu hcounted

theorem Steady.paid_step (h : Steady config w target x) (hmax : config.max_retries.toNat < 2 ^ 31)
    (hu : Undisturbed w target x.1 a) (hstep : (withLog config).step x a = some y) :
    TransitionSystem.Paid (potential config w target) (owed w target.msg_id)
      (Settled config w target.msg_id) a.price x y := by
  obtain ⟨s', hnext, rfl⟩ := TransitionSystem.exists_of_observe_step hstep
  have hmove := next_move hnext
  exact ⟨fun hsettled => h.settled hmove hsettled, h.paid_next hmax hmove hu⟩

theorem reachable_sole (hmax : config.max_retries.toNat < 2 ^ 31)
    (hx : (withLog config).Reachable (fun _ a => SweptBy w a) x) :
    Consistent config x.1 x.2 ∧ SoleSweeper config w x.1 := by
  refine hx.invariant (I := fun x => Consistent config x.1 x.2 ∧ SoleSweeper config w x.1)
    ⟨.initial, .initial config w⟩ ?_
  intro x a y hx hswept hstep
  obtain ⟨s', hnext, rfl⟩ := TransitionSystem.exists_of_observe_step hstep
  have hmove := next_move hnext
  exact ⟨hx.1.next hmax hmove, hx.2.next hmove hx.1.unique hswept⟩

end Runs

def sweeps (run : List Label) : ℕ :=
  run.countP (fun a => match a.action with | .select _ => true | _ => false)

theorem sum_price (run : List Label) : (run.map Label.price).sum = 100 * sweeps run := by
  induction run with
  | nil => rfl
  | cons a run ih =>
      unfold sweeps at ih ⊢
      rw [List.map_cons, List.sum_cons, ih, List.countP_cons, Label.price]
      cases a.action with
      | select order => simp; omega
      | _ => simp

/-- Once a run has a sweep for every hundred attempts that the rows ahead of a row have left, and
one for each failed attempt on the row itself, the row is published or out of retries. -/
theorem no_row_starves (config : Config) (hmax : config.max_retries.toNat < 2 ^ 31) {w : WorkerId}
    {x x' : State × List Event} {target : Row} {run : List Label}
    (hx : (withLog config).Reachable (fun _ a => SweptBy w a) x) (htarget : target ∈ x.1.rows)
    (hidle : x.1.workers w = .idle) (hrun : (withLog config).exec x run = some x')
    (hundisturbed : (withLog config).Along (fun x a => Undisturbed w target x.1 a) x run)
    (hidle' : x'.1.workers w = .idle)
    (hsweeps : backlog config x.1.rows target + 100 * failedAttempts x'.2 target.msg_id <
      100 * sweeps run + 100 * failedAttempts x.2 target.msg_id) :
    ∃ row ∈ x'.1.rows, row.msg_id = target.msg_id ∧
      row.retry_count + failedAttempts x.2 target.msg_id =
        target.retry_count + failedAttempts x'.2 target.msg_id ∧
      (row.status = .published ∨ config.max_retries.toNat ≤ row.retry_count) := by
  obtain ⟨hconsistent, hsole⟩ := reachable_sole hmax hx
  have hsteady : Steady config w target x := ⟨hconsistent, hsole, target, htarget, rfl, rfl⟩
  have hpaid := TransitionSystem.exec_paid (I := Steady config w target)
    (fun _ _ _ h hu hstep => h.step hmax hu hstep)
    (fun _ _ _ h hu hstep => h.paid_step hmax hu hstep) hsteady hrun hundisturbed
  have hsettled : Settled config w target.msg_id x' := by
    refine hpaid.reaches ?_
    have hpotential : potential config w target x = backlog config x.1.rows target := by
      rw [potential, hidle]
      exact charged_nil ..
    have howed : owed w target.msg_id x = 100 * failedAttempts x.2 target.msg_id := by
      simp [owed, hidle, Pc.untried]
    have howed' : owed w target.msg_id x' = 100 * failedAttempts x'.2 target.msg_id := by
      simp [owed, hidle', Pc.untried]
    rw [hpotential, howed, howed', sum_price]
    exact hsweeps
  have hcounted : Counted w target.msg_id
      (target.retry_count - failedAttempts x.2 target.msg_id) x :=
    ⟨target, htarget, rfl, by simp [hidle, Pc.failing]⟩
  obtain ⟨-, row, hrow, hid, hcount⟩ := TransitionSystem.exec_invariant_along
    (I := fun y => Steady config w target y ∧ Counted w target.msg_id
      (target.retry_count - failedAttempts x.2 target.msg_id) y)
    (fun _ _ _ h hu hstep => ⟨h.1.step hmax hu hstep, h.1.counted_step hmax hu hstep h.2⟩)
    ⟨hsteady, hcounted⟩ hrun hundisturbed
  refine ⟨row, hrow, hid, ?_, ?_⟩
  · simp only [hidle', Pc.failing, reduceCtorEq, if_false] at hcount
    omega
  · by_contra hopen
    push Not at hopen
    exact hsettled.2 row hrow hid (eligible_of_lt hopen.1 hopen.2)

def receiptUuid : Uuid := ⟨"00000000-0000-4000-8000-00000000000c", rfl⟩

def receiptRow : Row := pendingRow receiptUuid "receipt" "7" 1

def bothWaiting : List Label :=
  [⟨0, .publishInTxn uuidA "order.created" "42" 0⟩, ⟨0, .publishInTxn receiptUuid "receipt" "7" 1⟩]

def sweepOfBoth : List Label :=
  [⟨1, .sweep⟩, ⟨1, .select [orderRow, receiptRow]⟩, ⟨1, .fail⟩, ⟨1, .update⟩, ⟨1, .push uuidA⟩,
    ⟨1, .update⟩]

def Pc.isIdle : Pc → Bool
  | .idle => true
  | _ => false

theorem eq_idle {pc : Pc} (h : pc.isIdle) : pc = .idle := by
  cases pc with
  | idle => rfl
  | _ => cases h

theorem no_row_starves_receipt :
    ∃ x x', (withLog ⟨5, id⟩).Reachable (fun _ a => SweptBy 1 a) x ∧
      (withLog ⟨5, id⟩).exec x sweepOfBoth = some x' ∧ failedAttempts x'.2 receiptRow.msg_id = 0 ∧
      ∃ row ∈ x'.1.rows, row.msg_id = receiptRow.msg_id ∧
        row.retry_count + failedAttempts x.2 receiptRow.msg_id =
          receiptRow.retry_count + failedAttempts x'.2 receiptRow.msg_id ∧
        (row.status = .published ∨ (5 : UInt32).toNat ≤ row.retry_count) := by
  obtain ⟨x, he, hp⟩ := ((withLog ⟨5, id⟩).guard (fun _ a => SweptBy 1 a)).exists_exec
    (s := (withLog ⟨5, id⟩).init) (r := bothWaiting)
    (p := fun x => receiptRow ∈ x.1.rows ∧ (x.1.workers 1).isIdle ∧
      backlog ⟨5, id⟩ x.1.rows receiptRow = 5 ∧
        (((withLog ⟨5, id⟩).guard (fun x a => Undisturbed 1 receiptRow x.1 a)).exec x
          sweepOfBoth).any (fun x => failedAttempts x.2 receiptRow.msg_id = 0 ∧
            (x.1.workers 1).isIdle))
    (by decide +kernel)
  obtain ⟨hmem, hidle, hbacklog, hrun⟩ := of_decide_eq_true hp
  obtain ⟨x', he', hp'⟩ := TransitionSystem.exists_exec _ hrun
  obtain ⟨hattempts, hidle'⟩ := of_decide_eq_true hp'
  obtain ⟨hexec, halong⟩ := TransitionSystem.exec_of_guard_exec he'
  have hx := TransitionSystem.reachable_of_guard_exec _ .init he
  refine ⟨x, x', hx, hexec, hattempts, ?_⟩
  refine no_row_starves ⟨5, id⟩ (by decide) hx hmem (eq_idle hidle) hexec halong (eq_idle hidle') ?_
  have hsweeps : sweeps sweepOfBoth = 1 := by decide
  rw [hbacklog, hattempts, hsweeps]
  omega

end Rszero.Outbox
