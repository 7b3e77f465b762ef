import Rszero.SingleFlightSteps

/-!
# The map of the calls in flight

The invariant `Registered` ties the map, the channels and the lock to the points the calls have
reached. A leader is in the map under its key until it removes itself, the writer awaits the channel
of an entry that is still there, and at most one value is ever sent on a channel. In particular the
slow path never sees its `recv` fail.
-/

namespace Rszero.SingleFlight

open BroadcastChannel

variable {R : Type} {key : CallId → String}

/-- The closure of the call is executing, or it has ended and the entry is yet to be removed. -/
def Pc.leads : Pc R → Bool
  | .running | .cleanUp _ => true
  | _ => false

theorem leads_iff {pc : Pc R} : pc.leads ↔ pc = .running ∨ ∃ result, pc = .cleanUp result := by
  cases pc
  all_goals simp [Pc.leads]

def Published : Pc R → List R → Prop
  | .cleanUp result, vs => vs = [result]
  | .returned _, vs | .dropped, vs => vs.length ≤ 1
  | _, vs => vs = []

theorem Published.length_le {pc : Pc R} {vs : List R} (h : Published pc vs) : vs.length ≤ 1 := by
  cases pc
  all_goals simp_all [Published]

structure Registered (key : CallId → String) (s : State R) : Prop where
  published : ∀ c, Published (s.calls c) (s.sent c)
  entry : ∀ k ch, s.inflight k = some ch → key ch = k
  leader : ∀ c, (s.calls c).leads → s.inflight (key c) = some c
  parked : ∀ c ch next, s.calls c = .recvSlow ch next →
    s.writer = some c ∧ s.inflight (key c) = some ch
  holder : ∀ c, s.writer = some c → ∃ ch next, s.calls c = .recvSlow ch next

namespace Registered

variable {s s' : State R} {a : Label R}

theorem initial : Registered key (system R key).init where
  published _ := rfl
  entry _ _ h := by cases h
  leader _ h := by cases h
  parked _ _ _ h := by cases h
  holder _ h := by cases h

theorem sent_length_le (hs : Registered key s) (ch : CallId) :
    (s.sent ch).length ≤ channelCapacity :=
  Nat.le_trans (hs.published ch).length_le (by decide)

theorem sent_of_cleanUp (hs : Registered key s) {c : CallId} {result : R}
    (hc : s.calls c = .cleanUp result) : s.sent c = [result] := by
  have hpub := hs.published c
  rwa [hc] at hpub

theorem sent_of_running (hs : Registered key s) {c : CallId} (hc : s.calls c = .running) :
    s.sent c = [] := by
  have hpub := hs.published c
  rwa [hc] at hpub

/-- The sender of an entry keeps its channel open. -/
theorem senderAlive_of_entry (hs : Registered key s) {k : String} {ch : CallId}
    (h : s.inflight k = some ch) : senderAlive key s ch := by
  simp [senderAlive, hs.entry k ch h, h]

/-- `recv` on the channel of an entry does not fail. -/
theorem entry_fails (hs : Registered key s) {k : String} {ch : CallId} {next : ℕ}
    (h : s.inflight k = some ch) :
    ¬ (received key s ch next = .lagged ∨ received key s ch next = .closed) := by
  rintro (hlag | hclosed)
  · exact recv_ne_lagged (hs.sent_length_le ch) hlag
  · have halive := hs.senderAlive_of_entry h
    exact absurd (alive_of_recv_eq_closed hclosed) (by simp [halive])

theorem recvSlow_fails (hs : Registered key s) {c ch : CallId} {next : ℕ}
    (hc : s.calls c = .recvSlow ch next) :
    ¬ (received key s ch next = .lagged ∨ received key s ch next = .closed) :=
  hs.entry_fails (hs.parked c ch next hc).2

theorem published_next (hs : Registered key s) (h : Move key s a s') (c : CallId) :
    Published (s'.calls c) (s'.sent c) := by
  refine h.forall_calls (p := fun _ pc vs => Published pc vs) hs.published ?_ c
  have hsent := hs.published a.caller
  cases h with
  | finish hc =>
      simp only [Label.caller] at hsent ⊢
      rw [hc] at hsent
      simp only [State.put_calls_self, State.put_sent, Function.update_self]
      rw [show s.sent _ = [] from hsent]
      rfl
  | failedSlow hc hr => exact absurd hr (hs.recvSlow_fails hc)
  | abort hc =>
      simp only [Label.caller, State.put_calls_self, State.put_sent] at hsent ⊢
      exact hsent.length_le
  | _ =>
      simp_all [Label.caller, lead, Published]

theorem entry_next (hs : Registered key s) (h : Move key s a s') (k : String) (ch : CallId)
    (hk : s'.inflight k = some ch) : key ch = k := by
  cases h with
  | @lead c hc hw hfree =>
      by_cases hkc : k = key c
      · subst hkc
        obtain rfl : c = ch := by simpa [lead] using hk
        rfl
      · exact hs.entry k ch (by simpa [lead, hkc] using hk)
  | failedSlow hc hr => exact absurd hr (hs.recvSlow_fails hc)
  | @remove c result hc hw =>
      by_cases hkc : k = key c
      · subst hkc
        simp at hk
      · exact hs.entry k ch (by simpa [hkc] using hk)
  | _ => exact hs.entry k ch hk

/-- A step neither makes nor replaces nor removes the entries of other calls. -/
theorem inflight_iff (hs : Registered key s) (h : Move key s a s') {k : String} {ch : CallId}
    (hch : ch ≠ a.caller) : s'.inflight k = some ch ↔ s.inflight k = some ch := by
  cases h with
  | @lead c hc hw hfree =>
      by_cases hkc : k = key c
      · subst hkc
        have hne : c ≠ ch := fun he => hch he.symm
        simp [lead, hfree, hne]
      · simp [lead, hkc]
  | failedSlow hc hr => exact absurd hr (hs.recvSlow_fails hc)
  | @remove c result hc hw =>
      by_cases hkc : k = key c
      · subst hkc
        have hne : c ≠ ch := fun he => hch he.symm
        simp [hs.leader c (by rw [hc]; rfl), hne]
      · simp [hkc]
  | _ => exact Iff.rfl

theorem leader_next (hs : Registered key s) (h : Move key s a s') (d : CallId)
    (hd : (s'.calls d).leads) : s'.inflight (key d) = some d := by
  by_cases hda : d = a.caller
  · subst hda
    cases h with
    | lead hc hw hfree => simp [lead, Label.caller]
    | failedSlow hc hr => exact absurd hr (hs.recvSlow_fails hc)
    | finish hc => exact hs.leader _ (by rw [Label.caller, hc]; rfl)
    | _ => simp [Label.caller, Pc.leads] at hd
  · rw [(h.other hda).1] at hd
    exact (hs.inflight_iff h hda).2 (hs.leader d hd)

theorem parked_next (hs : Registered key s) (h : Move key s a s') (d ch : CallId) (next : ℕ)
    (hd : s'.calls d = .recvSlow ch next) :
    s'.writer = some d ∧ s'.inflight (key d) = some ch := by
  by_cases hda : d = a.caller
  · subst hda
    cases h with
    | park hc hw hk =>
        obtain ⟨rfl, -⟩ : _ = ch ∧ _ = next := by simpa [Label.caller] using hd
        exact ⟨rfl, hk⟩
    | failedSlow hc hr => exact absurd hr (hs.recvSlow_fails hc)
    | _ => simp [Label.caller, lead] at hd
  · rw [(h.other hda).1] at hd
    obtain ⟨hw, hk⟩ := hs.parked d ch next hd
    cases h with
    | lead hc hw' | park hc hw' | remove hc hw' =>
        rw [hw] at hw'
        cases hw'
    | servedSlow hc hr =>
        exact absurd (Option.some.inj (hw.symm.trans (hs.parked _ _ _ hc).1)) hda
    | failedSlow hc hr => exact absurd hr (hs.recvSlow_fails hc)
    | @abort c hc =>
        have hne : s.writer ≠ some c := fun he => hda (Option.some.inj (hw.symm.trans he))
        exact ⟨by simpa [hne] using hw, hk⟩
    | _ => exact ⟨hw, hk⟩

theorem holder_next (hs : Registered key s) (h : Move key s a s') (d : CallId)
    (hd : s'.writer = some d) : ∃ ch next, s'.calls d = .recvSlow ch next := by
  have hkeep (hw : s.writer = some d) (hda : d ≠ a.caller) :
      ∃ ch next, s'.calls d = .recvSlow ch next := by
    rw [(h.other hda).1]
    exact hs.holder d hw
  have hne {c : CallId} (hw : s.writer = some d) (hc : ∀ ch next, s.calls c ≠ .recvSlow ch next) :
      d ≠ c := by
    rintro rfl
    obtain ⟨ch, next, hpc⟩ := hs.holder d hw
    exact hc ch next hpc
  cases h with
  | begin hc | miss hc | hit hc | served hc | failed hc | finish hc =>
      exact hkeep hd (hne hd (by simp [Label.caller, hc]))
  | lead | servedSlow => cases hd
  | failedSlow hc hr => exact absurd hr (hs.recvSlow_fails hc)
  | @park c ch hc hw hk =>
      obtain rfl := Option.some.inj hd
      exact ⟨ch, _, State.put_calls_self ..⟩
  | remove hc hw =>
      rw [State.put_writer, hw] at hd
      cases hd
  | @abort c hc =>
      by_cases hw : s.writer = some c
      · simp [hw] at hd
      · have hwd : s.writer = some d := by simpa [hw] using hd
        exact hkeep hwd (fun he => hw (hwd.trans (congrArg some he)))

theorem next (hs : Registered key s) (h : (system R key).step s a = some s') :
    Registered key s' where
  published := hs.published_next (next_move h)
  entry := hs.entry_next (next_move h)
  leader := hs.leader_next (next_move h)
  parked := hs.parked_next (next_move h)
  holder := hs.holder_next (next_move h)

theorem reachable {C : State R → Label R → Prop} (hs : (system R key).Reachable C s) :
    Registered key s :=
  hs.invariant .initial (fun _ _ _ ht _ hstep => ht.next hstep)

end Registered

end Rszero.SingleFlight
