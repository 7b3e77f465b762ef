import Rszero.SingleFlightEntries

/-!
# Who waits for whom

The slow path awaits a channel under the write guard. If it subscribes after the leader has sent its
result, it waits for a value that never comes, and the leader waits for the guard in order to
remove its entry. If it subscribes earlier, the guard is kept until the closure of its key ends,
and the calls for all other keys wait with it.
-/

namespace Rszero.SingleFlight

open BroadcastChannel

variable {R : Type} {key : CallId → String}

def isAbort : Label R → Bool
  | .abort _ => true
  | _ => false

def canStep (key : CallId → String) (s : State R) (c : CallId) : Prop :=
  (advance key s c).isSome

theorem canStep_of_writer_none {s : State R} {c : CallId} (hw : s.writer = none)
    (hc : s.calls c = .readInflight ∨ s.calls c = .writeInflight ∨
      ∃ result, s.calls c = .cleanUp result) : canStep key s c := by
  unfold canStep advance
  rcases hc with hc | hc | ⟨result, hc⟩
  · cases s.inflight (key c) <;> simp [hc, hw]
  · cases s.inflight (key c) <;> simp [hc, hw]
  · simp [hc, hw]

theorem canStep_of_received {s : State R} {c ch : CallId} {next : ℕ}
    (hc : s.calls c = .recvFast ch next ∨ s.calls c = .recvSlow ch next)
    (hr : received key s ch next ≠ .pending) : canStep key s c := by
  unfold canStep advance
  rcases hc with hc | hc
  · cases h : received key s ch next <;> simp_all
  · cases h : received key s ch next <;> simp_all

/-- A call that has not returned, no executing closure, and no call that can take a step. -/
def Stuck (key : CallId → String) (s : State R) : Prop :=
  (∃ c, (s.calls c).live) ∧ (∀ c, s.calls c ≠ .running) ∧ ∀ c, ¬ canStep key s c

/-- The slow path finds no entry whose leader has already sent its result. -/
def subscribesEarly (key : CallId → String) (s : State R) : Label R → Bool
  | .step c => match s.calls c with
      | .writeInflight => (s.inflight (key c)).all (fun ch => (s.sent ch).isEmpty)
      | _ => true
  | _ => true

/-- A receiver under the guard subscribed before anything was sent. -/
def Early (s : State R) : Prop := ∀ c ch next, s.calls c = .recvSlow ch next → next = 0

theorem keepsLeaders_of_not_isAbort {s : State R} {a : Label R} (h : ¬ isAbort a) :
    keepsLeaders s a := by
  cases a
  all_goals first | rfl | exact absurd rfl h

theorem Early.next {s s' : State R} {a : Label R} (hs : Registered key s) (he : Early s)
    (ha : subscribesEarly key s a) (h : (system R key).step s a = some s') : Early s' := by
  intro d ch next hd
  have hmove := next_move h
  by_cases hda : d = a.caller
  · subst hda
    cases hmove with
    | @park c ch' hc hw hk =>
        have hempty : s.sent ch' = [] := by simpa [subscribesEarly, hc, hk] using ha
        obtain ⟨-, rfl⟩ : ch' = ch ∧ subscribe (s.sent ch') = next := by
          simpa [Label.caller] using hd
        rw [hempty]
        rfl
    | failedSlow hc hr => exact absurd hr (hs.recvSlow_fails hc)
    | _ => simp [Label.caller, lead] at hd
  · rw [(hmove.other hda).1] at hd
    exact he d ch next hd

structure Prompt (key : CallId → String) (s : State R) : Prop where
  registered : Registered key s
  live : EntriesLive key s
  early : Early s

theorem Prompt.initial : Prompt key (system R key).init where
  registered := .initial
  live _ _ h := by cases h
  early _ _ _ h := by cases h

theorem Prompt.next {s s' : State R} {a : Label R} (hs : Prompt key s) (habort : ¬ isAbort a)
    (ha : subscribesEarly key s a) (h : (system R key).step s a = some s') : Prompt key s' where
  registered := hs.registered.next h
  live := hs.live.next hs.registered (keepsLeaders_of_not_isAbort habort) h
  early := hs.early.next hs.registered ha h

/-- A leader that has sent its result serves the receiver under the guard. -/
theorem Prompt.holder_steps {s : State R} (hs : Prompt key s) {c : CallId}
    (hc : s.writer = some c) (hrun : ∀ d, s.calls d ≠ .running) : canStep key s c := by
  obtain ⟨ch, next, hpc⟩ := hs.registered.holder c hc
  have hleads := (hs.live _ ch (hs.registered.parked c ch next hpc).2).2
  refine canStep_of_received (.inr hpc) (fun hpending => ?_)
  have hle := ((recv_eq_pending_iff (hs.registered.sent_length_le ch)).1 hpending).1
  rcases leads_iff.1 hleads with hch | ⟨result, hch⟩
  · exact hrun ch hch
  · rw [hs.early c ch next hpc, hs.registered.sent_of_cleanUp hch] at hle
    cases hle

theorem Prompt.not_stuck {s : State R} (hs : Prompt key s) : ¬ Stuck key s := by
  rintro ⟨⟨c, hc⟩, hrun, hstep⟩
  have hw : s.writer = none := by
    by_contra hne
    obtain ⟨d, hd⟩ := Option.ne_none_iff_exists'.1 hne
    exact hstep d (hs.holder_steps hd hrun)
  have hfree (d : CallId) := fun h => hstep d (canStep_of_writer_none hw h)
  have hparked (d ch : CallId) (next : ℕ) : s.calls d ≠ .recvSlow ch next := by
    intro hd
    have hd' := (hs.registered.parked d ch next hd).1
    rw [hw] at hd'
    cases hd'
  have hleads (d : CallId) : ¬ (s.calls d).leads := by
    intro hd
    rcases leads_iff.1 hd with hpc | ⟨result, hpc⟩
    · exact hrun d hpc
    · exact hfree d (.inr (.inr ⟨result, hpc⟩))
  -- only a receiver on the fast path is left, and it needs a sender
  cases hpc : s.calls c with
  | readInflight => exact hfree c (.inl hpc)
  | writeInflight => exact hfree c (.inr (.inl hpc))
  | recvSlow ch next => exact hparked c ch next hpc
  | running => exact hrun c hpc
  | cleanUp result => exact hfree c (.inr (.inr ⟨result, hpc⟩))
  | recvFast ch next =>
      refine hstep c (canStep_of_received (.inl hpc) (fun hpending => ?_))
      have halive := ((recv_eq_pending_iff (hs.registered.sent_length_le ch)).1 hpending).2
      rw [senderAlive, Bool.or_eq_true, beq_iff_eq] at halive
      rcases halive with hholds | hentry
      · cases hch : s.calls ch with
        | writeInflight => exact hfree ch (.inr (.inl hch))
        | recvSlow ch' next' => exact hparked ch ch' next' hch
        | running => exact hrun ch hch
        | cleanUp result => exact hfree ch (.inr (.inr ⟨result, hch⟩))
        | _ =>
            rw [hch] at hholds
            cases hholds
      · exact hleads ch (hs.live _ ch hentry).2
  | _ =>
      rw [hpc] at hc
      cases hc

/-- The call `c` holds the guard and awaits the channel of `ch` although the value was sent before
it subscribed, and `ch` awaits the guard. -/
structure Late (key : CallId → String) (c ch : CallId) (s : State R) : Prop where
  registered : Registered key s
  parked : ∃ next, s.calls c = .recvSlow ch next ∧ (s.sent ch).length ≤ next
  leader : ∃ result, s.calls ch = .cleanUp result

/-- What the slow path does in the very step that the condition of `subscribesEarly` excludes. -/
theorem late_of_not_subscribesEarly {s s' : State R} {a : Label R} (hs : Registered key s)
    (hlive : EntriesLive key s) (ha : ¬ subscribesEarly key s a)
    (h : (system R key).step s a = some s') : ∃ c ch, Late key c ch s' := by
  have hmove := next_move h
  cases hmove with
  | @park c ch hc hw hk =>
      have hsent : s.sent ch ≠ [] := by simpa [subscribesEarly, hc, hk] using ha
      have hne : ch ≠ c := by
        rintro rfl
        have hleads := (hlive _ _ hk).2
        rw [hc] at hleads
        cases hleads
      refine ⟨c, ch, hs.next h, ⟨_, State.put_calls_self .., Nat.le_refl _⟩, ?_⟩
      rw [State.put_calls_of_ne _ _ hne]
      exact (leads_iff.1 (hlive _ _ hk).2).resolve_left (fun hpc => hsent (hs.sent_of_running hpc))
  | lead hc hw hk => simp [subscribesEarly, hc, hk] at ha
  | begin | finish | abort => exact absurd rfl ha
  | miss hc | hit hc | served hc | failed hc | servedSlow hc | failedSlow hc | remove hc =>
      simp [subscribesEarly, hc] at ha

theorem Late.next {c ch : CallId} {s s' : State R} {a : Label R} (hs : Late key c ch s)
    (habort : ¬ isAbort a) (h : (system R key).step s a = some s') : Late key c ch s' := by
  have hmove := next_move h
  obtain ⟨next, hc, hle⟩ := hs.parked
  obtain ⟨result, hch⟩ := hs.leader
  have hca : c ≠ a.caller := by
    rintro rfl
    cases hmove with
    | @servedSlow c' ch' next' value hpc hr =>
        obtain ⟨rfl, rfl⟩ : ch' = ch ∧ next' = next := by simpa [Label.caller, hpc] using hc
        have hv := getElem?_of_recv_eq_value hr
        rw [List.getElem?_eq_none hle] at hv
        cases hv
    | failedSlow hpc hr => exact hs.registered.recvSlow_fails hpc hr
    | abort => exact habort rfl
    | begin hpc | miss hpc | hit hpc | served hpc | failed hpc | lead hpc | park hpc | remove hpc
    | finish hpc => simp [Label.caller, hpc] at hc
  have hcha : ch ≠ a.caller := by
    rintro rfl
    cases hmove with
    | remove hpc hw =>
        rw [(hs.registered.parked _ _ _ hc).1] at hw
        cases hw
    | abort => exact habort rfl
    | begin hpc | miss hpc | hit hpc | served hpc | failed hpc | lead hpc | park hpc
    | servedSlow hpc | failedSlow hpc | finish hpc => simp [Label.caller, hpc] at hch
  obtain ⟨hcalls, -⟩ := hmove.other hca
  obtain ⟨hleader, hsent⟩ := hmove.other hcha
  exact ⟨hs.registered.next h, ⟨next, hcalls.trans hc, hsent ▸ hle⟩, result, hleader.trans hch⟩

/-- The late subscriber and its leader never return. -/
theorem Late.exec {c ch : CallId} {s s' : State R} {as : List (Label R)} (hs : Late key c ch s)
    (habort : ∀ a ∈ as, ¬ isAbort a) (h : (system R key).exec s as = some s') :
    Late key c ch s' := by
  induction as generalizing s with
  | nil => exact Option.some.inj h ▸ hs
  | cons a as ih =>
      obtain ⟨t, ht, hr⟩ := ((system R key).exec_cons_eq_some).1 h
      exact ih (hs.next (habort a (by simp)) ht) (fun b hb => habort b (by simp [hb])) hr

/-- In a run without aborts in which the slow path never finds an entry whose leader has already
sent its result, no reachable state is a deadlock. -/
theorem not_stuck_of_subscribesEarly (key : CallId → String) {s : State R}
    (hs : (system R key).Reachable (fun t a => ¬ isAbort a ∧ subscribesEarly key t a) s) :
    ¬ Stuck key s := by
  have hinv : Prompt key s := by
    refine hs.invariant .initial ?_
    intro t a t' ht ha hstep
    exact ht.next ha.1 ha.2 hstep
  exact hinv.not_stuck

/-- A call on the slow path subscribes while the closure runs and is served under the guard. -/
theorem not_stuck_of_subscribesEarly_parked :
    ∃ s, (system ℕ (fun _ => "key")).Reachable
        (fun t a => ¬ isAbort a ∧ subscribesEarly (fun _ => "key") t a) s ∧
      s.writer = some 1 ∧ (s.calls 0).executing = false ∧ ¬ Stuck (fun _ => "key") s := by
  obtain ⟨s, he, hp⟩ := ((system ℕ (fun _ => "key")).guard
      (fun t a => ¬ isAbort a ∧ subscribesEarly (fun _ => "key") t a)).exists_exec
    (s := (system ℕ (fun _ => "key")).init)
    (r := [.begin 0, .begin 1, .step 0, .step 1, .step 0, .step 1, .finish 0 42])
    (p := fun s => s.writer == some 1 && !(s.calls 0).executing) (by decide +kernel)
  have hs := (system ℕ (fun _ => "key")).reachable_of_guard_exec .init he
  rw [Bool.and_eq_true, beq_iff_eq, Bool.not_eq_true'] at hp
  exact ⟨s, hs, hp.1, hp.2, not_stuck_of_subscribesEarly _ hs⟩

def lateSubscriber : List (Label ℕ) :=
  [.begin 0, .begin 1, .step 0, .step 1, .step 0, .finish 0 42, .step 1]

/-- Two calls for one key miss on the fast path. The second takes the lock between the `send` and
the clean-up of the first: it waits for a value that was sent before it subscribed, and the first
waits for the lock. -/
theorem lateSubscriber_stuck :
    ∃ s, (system ℕ (fun _ => "key")).Reachable (fun _ a => ¬ isAbort a) s ∧
      Stuck (fun _ => "key") s := by
  obtain ⟨s, he, hp⟩ := ((system ℕ (fun _ => "key")).guard (fun _ a => ¬ isAbort a)).exists_exec
    (s := (system ℕ (fun _ => "key")).init) (r := lateSubscriber)
    (p := fun s => (s.calls 1).live && (lateSubscriber.map Label.caller).all (fun c =>
      !(s.calls c).executing && (advance (fun _ => "key") s c).isNone)) (by decide +kernel)
  obtain ⟨hexec, -⟩ := (system ℕ (fun _ => "key")).exec_of_guard_exec he
  simp only [Bool.and_eq_true, List.all_eq_true, Bool.not_eq_true', Option.isNone_iff_eq_none] at hp
  obtain ⟨hlive, hall⟩ := hp
  refine ⟨s, (system ℕ (fun _ => "key")).reachable_of_guard_exec .init he, ⟨1, hlive⟩, ?_, ?_⟩
  · intro c hrun
    by_cases hc : c ∈ lateSubscriber.map Label.caller
    · have hnot := (hall c hc).1
      rw [hrun] at hnot
      cases hnot
    · rw [exec_calls_of_ne hexec hc] at hrun
      cases hrun
  · intro c hstep
    by_cases hc : c ∈ lateSubscriber.map Label.caller
    · rw [canStep, (hall c hc).2] at hstep
      cases hstep
    · rw [canStep, advance, exec_calls_of_ne hexec hc] at hstep
      cases hstep

end Rszero.SingleFlight
