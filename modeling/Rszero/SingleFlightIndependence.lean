import Rszero.SingleFlightProgress

/-!
# Calls for different keys

All keys share one lock. A call is independent of the other keys as long as no call awaits a channel
under the write guard, and a receiver waits for a closure, and for nothing else, as long as it
subscribed before that closure ended.
-/

namespace Rszero.SingleFlight

open BroadcastChannel

variable {R : Type} {key : CallId → String}

def Pc.awaitsLock : Pc R → Bool
  | .readInflight | .writeInflight | .cleanUp _ => true
  | _ => false

def Receives (s : State R) (c ch : CallId) : Prop :=
  ∃ next, s.calls c = .recvFast ch next ∨ s.calls c = .recvSlow ch next

/-- A closure for the key of the call is executing, and the call awaits its end. -/
def AwaitsClosure (key : CallId → String) (s : State R) (c : CallId) : Prop :=
  ∃ d, key d = key c ∧ s.calls d = .running ∧ (d = c ∨ Receives s c d)

def AwaitsLock (key : CallId → String) (s : State R) (c : CallId) : Prop :=
  (s.calls c).awaitsLock ∧ ∃ d, s.writer = some d ∧ canStep key s d

/-- The call cannot go on before the closure of `d` ends: it awaits the channel of `d`, or it awaits
the lock and the holder does. -/
def BlockedOn (s : State R) (c d : CallId) : Prop :=
  s.calls d = .running ∧ (Receives s c d ∨
    (s.calls c).awaitsLock ∧ ∃ w, s.writer = some w ∧ Receives s w d)

structure Independent (key : CallId → String) (s : State R) : Prop where
  waits : ∀ c, (s.calls c).live → canStep key s c ∨ AwaitsClosure key s c ∨ AwaitsLock key s c
  sameKey : ∀ c d, BlockedOn s c d → key d = key c

/-- The fast path finds no entry whose leader has already sent its result, and the slow path finds
no entry at all. -/
def entersFreely (key : CallId → String) (s : State R) : Label R → Bool
  | .step c => match s.calls c with
      | .readInflight => (s.inflight (key c)).all (fun ch => (s.sent ch).isEmpty)
      | .writeInflight => (s.inflight (key c)).isNone
      | _ => true
  | _ => true

/-- Nobody awaits a channel under the guard, and a receiver on the fast path subscribed, while the
closure was executing, to a channel of its key. -/
structure Direct (key : CallId → String) (s : State R) : Prop where
  registered : Registered key s
  live : EntriesLive key s
  unparked : ∀ c ch next, s.calls c ≠ .recvSlow ch next
  timely : ∀ c ch next, s.calls c = .recvFast ch next →
    key ch = key c ∧ next = 0 ∧ (s.calls ch = .running ∨ s.sent ch ≠ [])

namespace Direct

variable {s s' : State R} {a : Label R}

theorem initial : Direct key (system R key).init where
  registered := .initial
  live _ _ h := by cases h
  unparked _ _ _ h := by cases h
  timely _ _ _ h := by cases h

/-- A closure that was executing goes on or leaves its result on the channel. -/
theorem running_or_sent (habort : ¬ isAbort a) (h : Move key s a s') {ch : CallId}
    (hch : s.calls ch = .running ∨ s.sent ch ≠ []) :
    s'.calls ch = .running ∨ s'.sent ch ≠ [] := by
  by_cases hca : ch = a.caller
  · subst hca
    cases h with
    | finish hc => exact .inr (by simp [Label.caller])
    | abort hc => exact absurd rfl habort
    | begin hc | miss hc | hit hc | served hc | failed hc | lead hc | park hc | servedSlow hc
    | failedSlow hc | remove hc =>
        exact .inr (hch.resolve_left (by simp [Label.caller, hc]))
  · rwa [(h.other hca).1, (h.other hca).2]

theorem unparked_next (hs : Direct key s) (ha : entersFreely key s a) (h : Move key s a s')
    (d ch : CallId) (next : ℕ) : s'.calls d ≠ .recvSlow ch next := by
  intro hd
  by_cases hda : d = a.caller
  · subst hda
    cases h with
    | park hc hw hk => simp [entersFreely, hc, hk] at ha
    | failedSlow hc => exact hs.unparked _ _ _ hc
    | _ => simp [Label.caller, lead] at hd
  · rw [(h.other hda).1] at hd
    exact hs.unparked d ch next hd

theorem timely_next (hs : Direct key s) (habort : ¬ isAbort a) (ha : entersFreely key s a)
    (h : Move key s a s') (d ch : CallId) (next : ℕ) (hd : s'.calls d = .recvFast ch next) :
    key ch = key d ∧ next = 0 ∧ (s'.calls ch = .running ∨ s'.sent ch ≠ []) := by
  by_cases hda : d = a.caller
  · subst hda
    cases h with
    | @hit c ch' hc hw hk =>
        obtain ⟨rfl, rfl⟩ : ch' = ch ∧ subscribe (s.sent ch') = next := by
          simpa [Label.caller] using hd
        have hempty : s.sent ch' = [] := by simpa [entersFreely, hc, hk] using ha
        obtain ⟨hkey, hleads⟩ := hs.live _ _ hk
        have hrun : s.calls ch' = .running := by
          refine (leads_iff.1 hleads).resolve_right ?_
          rintro ⟨result, hpc⟩
          rw [hs.registered.sent_of_cleanUp hpc] at hempty
          cases hempty
        refine ⟨hkey, by rw [hempty]; rfl, running_or_sent habort (.hit hc hw hk) (.inl hrun)⟩
    | _ => simp [Label.caller, lead] at hd
  · rw [(h.other hda).1] at hd
    obtain ⟨hkey, hnext, hch⟩ := hs.timely d ch next hd
    exact ⟨hkey, hnext, running_or_sent habort h hch⟩

theorem next (hs : Direct key s) (habort : ¬ isAbort a) (ha : entersFreely key s a)
    (h : (system R key).step s a = some s') : Direct key s' where
  registered := hs.registered.next h
  live := hs.live.next hs.registered (keepsLeaders_of_not_isAbort habort) h
  unparked := hs.unparked_next ha (next_move h)
  timely := hs.timely_next habort ha (next_move h)

theorem writer_none (hs : Direct key s) : s.writer = none := by
  by_contra hne
  obtain ⟨d, hd⟩ := Option.ne_none_iff_exists'.1 hne
  obtain ⟨ch, next, hpc⟩ := hs.registered.holder d hd
  exact hs.unparked d ch next hpc

theorem waits (hs : Direct key s) (c : CallId) (hc : (s.calls c).live) :
    canStep key s c ∨ AwaitsClosure key s c ∨ AwaitsLock key s c := by
  have hfree (h : s.calls c = .readInflight ∨ s.calls c = .writeInflight ∨
      ∃ result, s.calls c = .cleanUp result) : canStep key s c :=
    canStep_of_writer_none hs.writer_none h
  cases hpc : s.calls c with
  | readInflight => exact .inl (hfree (.inl hpc))
  | writeInflight => exact .inl (hfree (.inr (.inl hpc)))
  | cleanUp result => exact .inl (hfree (.inr (.inr ⟨result, hpc⟩)))
  | running => exact .inr (.inl ⟨c, rfl, hpc, .inl rfl⟩)
  | recvSlow ch next => exact absurd hpc (hs.unparked c ch next)
  | recvFast ch next =>
      obtain ⟨hkey, hnext, hrun | hsent⟩ := hs.timely c ch next hpc
      · exact .inr (.inl ⟨ch, hkey, hrun, .inr ⟨next, .inl hpc⟩⟩)
      · refine .inl (canStep_of_received (.inl hpc) (fun hpending => ?_))
        have hle := ((recv_eq_pending_iff (hs.registered.sent_length_le ch)).1 hpending).1
        rw [hnext, Nat.le_zero, List.length_eq_zero_iff] at hle
        exact hsent hle
  | _ =>
      rw [hpc] at hc
      cases hc

theorem independent (hs : Direct key s) : Independent key s where
  waits := hs.waits
  sameKey c d hblocked := by
    obtain ⟨-, ⟨next, hpc | hpc⟩ | ⟨-, w, hw, -⟩⟩ := hblocked
    · exact (hs.timely c d next hpc).1
    · exact absurd hpc (hs.unparked c d next)
    · rw [hs.writer_none] at hw
      cases hw

end Direct

/-- In a run without aborts in which the fast path finds no entry whose leader has sent its result
and the slow path finds no entry, the calls are independent of the other keys in every state. -/
theorem independent_of_entersFreely (key : CallId → String) {s : State R}
    (hs : (system R key).Reachable (fun t a => ¬ isAbort a ∧ entersFreely key t a) s) :
    Independent key s := by
  have hinv : Direct key s := by
    refine hs.invariant .initial ?_
    intro t a t' ht ha hstep
    exact ht.next ha.1 ha.2 hstep
  exact hinv.independent

def twoKeys (c : CallId) : String := if c = 2 then "other" else "key"

theorem independent_of_entersFreely_two_keys :
    ∃ s, (system ℕ twoKeys).Reachable (fun t a => ¬ isAbort a ∧ entersFreely twoKeys t a) s ∧
      (s.calls 0).executing ∧ (s.calls 1).live ∧ (s.calls 2).live ∧ Independent twoKeys s := by
  obtain ⟨s, he, hp⟩ := ((system ℕ twoKeys).guard
      (fun t a => ¬ isAbort a ∧ entersFreely twoKeys t a)).exists_exec
    (s := (system ℕ twoKeys).init)
    (r := [.begin 0, .step 0, .step 0, .begin 1, .step 1, .begin 2, .step 2])
    (p := fun s => (s.calls 0).executing && (s.calls 1).live && (s.calls 2).live)
    (by decide +kernel)
  have hs := (system ℕ twoKeys).reachable_of_guard_exec .init he
  simp only [Bool.and_eq_true] at hp
  exact ⟨s, hs, hp.1.1, hp.1.2, hp.2, independent_of_entersFreely _ hs⟩

/-- While a call awaits an executing closure under the guard, every call for another key is blocked
on that closure as soon as it begins. -/
theorem not_independent_of_parked {s : State R} {c ch d : CallId} (hw : s.writer = some c)
    (hc : Receives s c ch) (hrun : s.calls ch = .running) (hd : s.calls d = .idle)
    (hkey : key ch ≠ key d) : ¬ Independent key (s.put d .readInflight) := by
  intro hind
  obtain ⟨next, hpc⟩ := hc
  have hcd : c ≠ d := by
    rintro rfl
    simp [hd] at hpc
  have hchd : ch ≠ d := by
    rintro rfl
    rw [hd] at hrun
    cases hrun
  have hreceives : Receives (s.put d .readInflight) c ch :=
    ⟨next, by rwa [State.put_calls_of_ne _ _ hcd]⟩
  refine hkey (hind.sameKey d ch ⟨?_, .inr ⟨?_, c, hw, hreceives⟩⟩)
  · rw [State.put_calls_of_ne _ _ hchd]
    exact hrun
  · rw [State.put_calls_self]
    rfl

/-- The second call for the first key awaits its channel under the guard: the call for the other key
waits for the guard, and so for the closure of the first key. -/
theorem parkedWriter_blocks_other_key :
    ∃ s, (system ℕ twoKeys).Reachable (fun _ a => ¬ isAbort a) s ∧ ¬ Independent twoKeys s := by
  obtain ⟨s, he, hp⟩ := ((system ℕ twoKeys).guard (fun _ a => ¬ isAbort a)).exists_exec
    (s := (system ℕ twoKeys).init)
    (r := [.begin 0, .begin 1, .step 0, .step 1, .step 0, .step 1])
    (p := fun s => s.writer == some 1 && s.inflight "key" == some 0 && (s.calls 0).executing)
    (by decide +kernel)
  have hs := (system ℕ twoKeys).reachable_of_guard_exec .init he
  have hexec := ((system ℕ twoKeys).exec_of_guard_exec he).1
  simp only [Bool.and_eq_true, beq_iff_eq] at hp
  obtain ⟨⟨hw, hentry⟩, hrun⟩ := hp
  have hidle : s.calls 2 = .idle := exec_calls_of_ne hexec (by decide)
  have hreg : Registered twoKeys s := .reachable hs
  obtain ⟨ch, next, hparked⟩ := hreg.holder 1 hw
  obtain rfl : 0 = ch := Option.some.inj (hentry.symm.trans (hreg.parked 1 ch next hparked).2)
  have hbegin : (system ℕ twoKeys).step s (.begin 2) = some (s.put 2 .readInflight) := by
    simp [system, State.next, hidle]
  refine ⟨s.put 2 .readInflight, hs.step (by simp [isAbort]) hbegin, ?_⟩
  exact not_independent_of_parked hw ⟨next, .inr hparked⟩ (executing_iff.1 hrun) hidle (by decide)

end Rszero.SingleFlight
