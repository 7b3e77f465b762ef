import Rszero.SingleFlightRegistry

/-!
# Entries and their leaders

A leader puts its entry in the map before it awaits its closure and removes it by the code after
the await. If its future is dropped or its closure panics in between, the entry stays, and so does
the sender in it: the channel is never closed and nothing is ever sent on it.
-/

namespace Rszero.SingleFlight

open BroadcastChannel

variable {R : Type} {key : CallId → String}

/-- Every entry belongs to a live call for its key that has yet to remove it. -/
def EntriesLive (key : CallId → String) (s : State R) : Prop :=
  ∀ k ch, s.inflight k = some ch → key ch = k ∧ (s.calls ch).leads

/-- A call does not end abnormally between the insertion of its entry and its removal. -/
def keepsLeaders (s : State R) : Label R → Bool
  | .abort c => !(s.calls c).leads
  | _ => true

theorem live_of_leads {pc : Pc R} (h : pc.leads) : pc.live := by
  cases pc
  all_goals first | rfl | cases h

namespace EntriesLive

variable {s s' : State R} {a : Label R}

theorem next (hs : Registered key s) (he : EntriesLive key s) (ha : keepsLeaders s a)
    (h : (system R key).step s a = some s') : EntriesLive key s' := by
  intro k ch hk
  have hmove := next_move h
  refine ⟨hs.entry_next hmove k ch hk, ?_⟩
  by_cases hch : ch = a.caller
  · subst hch
    cases hmove with
    | lead hc hw hfree => simp [Label.caller, lead, Pc.leads]
    | failedSlow hc hr => exact absurd hr (hs.recvSlow_fails hc)
    | finish hc => simp [Label.caller, Pc.leads]
    | @remove c result hc hw =>
        have hkey := hs.entry_next (.remove hc hw) k c hk
        simp [hkey] at hk
    | @abort c hc =>
        have hleads := (he k c hk).2
        simp [keepsLeaders, hleads] at ha
    | begin hc | miss hc | hit hc | served hc | failed hc | park hc | servedSlow hc =>
        have hleads := (he k _ hk).2
        rw [Label.caller, hc] at hleads
        cases hleads
  · rw [(hmove.other hch).1]
    exact (he k ch ((hs.inflight_iff hmove hch).1 hk)).2

/-- The abnormal end of a leader leaves its entry behind. -/
theorem not_next (hs : Registered key s) (ha : ¬ keepsLeaders s a)
    (h : (system R key).step s a = some s') : ¬ EntriesLive key s' := by
  intro he
  cases next_move h with
  | @abort c hc =>
      have hleads : (s.calls c).leads := by simpa [keepsLeaders] using ha
      have hdropped := (he (key c) c (hs.leader c hleads)).2
      rw [State.put_calls_self] at hdropped
      cases hdropped
  | _ => exact ha rfl

theorem absent {k : String} (he : EntriesLive key s) (hk : ∀ c, key c = k → ¬ (s.calls c).live) :
    s.inflight k = none := by
  by_contra hne
  obtain ⟨ch, hch⟩ := Option.ne_none_iff_exists'.1 hne
  obtain ⟨hkey, hleads⟩ := he k ch hch
  exact hk ch hkey (live_of_leads hleads)

end EntriesLive

/-- A call that finds no entry and the lock free runs its own closure. -/
theorem leads_of_absent {s : State R} {c : CallId} (hc : s.calls c = .idle)
    (hw : s.writer = none) (hk : s.inflight (key c) = none) :
    ∃ s', (system R key).exec s [.begin c, .step c, .step c] = some s' ∧
      s'.calls c = .running := by
  simp [TransitionSystem.exec, system, State.next, advance, lead, State.put, hc, hw, hk]

structure Accounted (key : CallId → String) (s : State R) : Prop where
  registered : Registered key s
  live : EntriesLive key s

/-- In a run every entry belongs to a live call throughout if and only if no leader ends
abnormally. A key whose calls are all over is then absent, and the next call for it that finds the
lock free runs its own closure. -/
theorem entriesLive_iff_keepsLeaders (key : CallId → String) (as : List (Label R)) (s : State R)
    (he : (system R key).exec (system R key).init as = some s) :
    ((system R key).Throughout (EntriesLive key) (system R key).init as ↔
      (system R key).Along (fun t a => keepsLeaders t a) (system R key).init as) ∧
    (EntriesLive key s → ∀ k, (∀ c, key c = k → ¬ (s.calls c).live) → s.inflight k = none ∧
      ∀ c, key c = k → s.calls c = .idle → s.writer = none →
        ∃ s', (system R key).exec s [.begin c, .step c, .step c] = some s' ∧
          s'.calls c = .running) := by
  constructor
  · refine TransitionSystem.throughout_iff_along (I := Accounted key) (fun _ hs => hs.live) ?_ ?_
      ⟨.initial, fun _ _ h => by cases h⟩ he
    · intro t a t' ht ha hstep
      exact ⟨ht.registered.next hstep, ht.live.next ht.registered ha hstep⟩
    · intro t a t' ht ha hstep
      exact EntriesLive.not_next ht.registered ha hstep
  · intro hlive k hk
    have habsent := hlive.absent hk
    refine ⟨habsent, ?_⟩
    rintro c rfl hc hw
    exact leads_of_absent hc hw habsent

/-- The leader of the entry is gone, and the call `c` waits for it at most. -/
structure Abandoned (key : CallId → String) (ch c : CallId) (s : State R) : Prop where
  registered : Registered key s
  gone : s.calls ch = .dropped
  entry : s.inflight (key ch) = some ch
  waits : s.calls c = .idle ∨ s.calls c = .readInflight ∨ s.calls c = .dropped ∨
    ∃ next, s.calls c = .recvFast ch next ∧ (s.sent ch).length ≤ next

theorem Abandoned.next {ch c : CallId} {s s' : State R} {a : Label R}
    (hs : Abandoned key ch c s) (hkey : key c = key ch)
    (h : (system R key).step s a = some s') : Abandoned key ch c s' := by
  have hmove := next_move h
  have hgone : ch ≠ a.caller := fun he => hmove.caller_ne_dropped (he ▸ hs.gone)
  obtain ⟨hcalls, hsent⟩ := hmove.other hgone
  refine ⟨hs.registered.next h, hcalls.trans hs.gone,
    (hs.registered.inflight_iff hmove hgone).2 hs.entry, ?_⟩
  by_cases hc : c = a.caller
  · subst hc
    have hwaits := hs.waits
    cases hmove with
    | begin hpc => exact .inr (.inl (State.put_calls_self ..))
    | miss hpc hw hk =>
        rw [Label.caller] at hkey
        rw [hkey, hs.entry] at hk
        cases hk
    | hit hpc hw hk =>
        rw [Label.caller] at hkey
        rw [hkey, hs.entry] at hk
        obtain rfl := Option.some.inj hk
        exact .inr (.inr (.inr ⟨_, State.put_calls_self .., Nat.le_refl _⟩))
    | served hpc hr =>
        obtain ⟨rfl, hle⟩ : _ = ch ∧ (s.sent ch).length ≤ _ := by
          simpa [Label.caller, hpc] using hwaits
        have hv := getElem?_of_recv_eq_value hr
        rw [List.getElem?_eq_none hle] at hv
        cases hv
    | failed hpc hr =>
        obtain ⟨rfl, -⟩ : _ = ch ∧ (s.sent ch).length ≤ _ := by
          simpa [Label.caller, hpc] using hwaits
        exact absurd hr (hs.registered.entry_fails hs.entry)
    | abort hpc => exact .inr (.inr (.inl (State.put_calls_self ..)))
    | lead hpc | park hpc | servedSlow hpc | failedSlow hpc | remove hpc | finish hpc =>
        simp [Label.caller, hpc] at hwaits
  · rw [(hmove.other hc).1, hsent]
    exact hs.waits

/-- Once the leader of an entry is gone, a later call for its key never executes its closure and
never returns, whatever else happens. -/
theorem Abandoned.exec {ch c : CallId} {s s' : State R} {as : List (Label R)}
    (hs : Abandoned key ch c s) (hkey : key c = key ch)
    (h : (system R key).exec s as = some s') :
    s'.calls c ≠ .running ∧ ∀ result, s'.calls c ≠ .returned result := by
  induction as generalizing s with
  | nil =>
      obtain rfl := Option.some.inj h
      rcases hs.waits with hc | hc | hc | ⟨next, hc, -⟩ <;> simp [hc]
  | cons a as ih =>
      obtain ⟨t, ht, hr⟩ := ((system R key).exec_cons_eq_some).1 h
      exact ih (hs.next hkey ht) hr

/-- A call that shares the result of a leader, and the removal by the leader. -/
theorem entriesLive_iff_keepsLeaders_shared :
    ∃ s, (system ℕ (fun _ => "key")).exec (system ℕ (fun _ => "key")).init
        [.begin 0, .step 0, .step 0, .begin 1, .step 1, .abort 1, .finish 0 42] = some s ∧
      (system ℕ (fun _ => "key")).Throughout (EntriesLive (fun _ => "key"))
        (system ℕ (fun _ => "key")).init
        [.begin 0, .step 0, .step 0, .begin 1, .step 1, .abort 1, .finish 0 42] := by
  obtain ⟨s, he, -⟩ := ((system ℕ (fun _ => "key")).guard (fun t a => keepsLeaders t a)).exists_exec
    (s := (system ℕ (fun _ => "key")).init)
    (r := [.begin 0, .step 0, .step 0, .begin 1, .step 1, .abort 1, .finish 0 42])
    (p := fun _ => true) (by decide +kernel)
  obtain ⟨hexec, halong⟩ := (system ℕ (fun _ => "key")).exec_of_guard_exec he
  exact ⟨s, hexec, ((entriesLive_iff_keepsLeaders _ _ s hexec).1).2 halong⟩

/-- A leader is dropped while it awaits its closure. No call is live, the key is in the map, and a
later call for it waits for ever. -/
theorem leaderDropped_blocks :
    ∃ s, (system ℕ (fun _ => "key")).Reachable (fun _ _ => True) s ∧
      (∀ c, ¬ (s.calls c).live) ∧ s.inflight "key" = some 0 ∧
      ∀ as s', (system ℕ (fun _ => "key")).exec s as = some s' →
        s'.calls 1 ≠ .running ∧ ∀ result, s'.calls 1 ≠ .returned result := by
  obtain ⟨s, he, hp⟩ := (system ℕ (fun _ => "key")).exists_exec
    (s := (system ℕ (fun _ => "key")).init) (r := [.begin 0, .step 0, .step 0, .abort 0])
    (p := fun s => s.inflight "key" == some 0 && match s.calls 0 with
      | .dropped => true
      | _ => false) (by decide +kernel)
  have hs := TransitionSystem.Reachable.exec _ .init (fun _ _ => trivial) he
  rw [Bool.and_eq_true, beq_iff_eq] at hp
  obtain ⟨hentry, hgone⟩ := hp
  have hidle (c : CallId) (hc : c ≠ 0) : s.calls c = .idle :=
    exec_calls_of_ne he (by simpa [Label.caller] using hc)
  split at hgone
  · rename_i hdropped
    have hblocked : Abandoned (fun _ => "key") 0 1 s :=
      ⟨.reachable hs, hdropped, hentry, .inl (hidle 1 (by decide))⟩
    refine ⟨s, hs, fun c => ?_, hentry, fun as s' h => ?_⟩
    · by_cases hc : c = 0
      · simp [hc, hdropped, Pc.live]
      · simp [hidle c hc, Pc.live]
    · exact hblocked.exec rfl h
  · cases hgone

end Rszero.SingleFlight
