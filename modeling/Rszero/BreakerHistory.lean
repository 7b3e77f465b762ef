import Rszero.Breaker

/-!
# Sequential runs of the breaker against their history

A run is a list of calls, each at the instant at which it reads the clock. What the breaker keeps
is compared with the run itself: `recorded` lists the outcomes since the creation or the last
reset, and `lastOpening` is the instant of the last transition into the open state.
-/

namespace Rszero.Breaker

inductive Op
  | recordSuccess
  | recordFailure
  | reset
  deriving DecidableEq

structure Call where
  op : Op
  now : ℕ
  deriving DecidableEq

variable (cfg : BreakerConfig)

def apply (b : CircuitBreaker) (c : Call) : CircuitBreaker :=
  match c.op with
  | .recordSuccess => recordSuccess cfg c.now b
  | .recordFailure => recordFailure cfg c.now b
  | .reset => reset b

def run (cs : List Call) : CircuitBreaker := cs.foldl (apply cfg) .new

@[simp] theorem run_concat (cs : List Call) (c : Call) :
    run cfg (cs ++ [c]) = apply cfg (run cfg cs) c := by simp [run]

def note (es : List WindowEntry) (c : Call) : List WindowEntry :=
  match c.op with
  | .recordSuccess => es ++ [⟨c.now, true⟩]
  | .recordFailure => es ++ [⟨c.now, false⟩]
  | .reset => []

/-- The outcomes recorded since the creation of the breaker or the last reset. -/
def recorded (cs : List Call) : List WindowEntry := cs.foldl note []

@[simp] theorem recorded_concat (cs : List Call) (c : Call) :
    recorded (cs ++ [c]) = note (recorded cs) c := by simp [recorded]

def inWindow (now : ℕ) (es : List WindowEntry) : List WindowEntry :=
  es.filter (fun e => now ≤ e.timestamp + cfg.window)

def Evidence (es : List WindowEntry) : Prop :=
  cfg.minRequests ≤ es.length ∧ cfg.failureThreshold ≤ (failures es : ℚ) / es.length

def Nondecreasing (cs : List Call) : Prop := cs.Pairwise (fun c d => c.now ≤ d.now)

instance (cs : List Call) : Decidable (Nondecreasing cs) :=
  inferInstanceAs (Decidable (List.Pairwise _ _))

instance (es : List WindowEntry) : Decidable (Evidence cfg es) :=
  inferInstanceAs (Decidable (_ ∧ _))

/-- The call takes the breaker into the open state: after its own `evaluate_state`, which may have
just left that state, the breaker is not open, and at the end of the call it is. -/
def Opens (b : CircuitBreaker) (c : Call) : Prop :=
  (evaluateState cfg c.now b).1 ≠ .open ∧ (apply cfg b c).state = .open

instance (b : CircuitBreaker) (c : Call) : Decidable (Opens cfg b c) :=
  inferInstanceAs (Decidable (_ ∧ _))

def noteOpening (x : CircuitBreaker × Option ℕ) (c : Call) : CircuitBreaker × Option ℕ :=
  (apply cfg x.1 c, if Opens cfg x.1 c then some c.now else x.2)

/-- The instant of the last transition into the open state. -/
def lastOpening (cs : List Call) : Option ℕ := (cs.foldl (noteOpening cfg) (.new, none)).2

theorem foldl_noteOpening_fst (cs : List Call) :
    (cs.foldl (noteOpening cfg) (.new, none)).1 = run cfg cs := by
  induction cs using List.reverseRecOn with
  | nil => rfl
  | append_singleton cs c ih => simp [noteOpening, ih]

theorem lastOpening_concat (cs : List Call) (c : Call) : lastOpening cfg (cs ++ [c]) =
    if Opens cfg (run cfg cs) c then some c.now else lastOpening cfg cs := by
  simp [lastOpening, noteOpening, foldl_noteOpening_fst]

theorem run_window (cs : List Call) : (run cfg cs).window =
    SlidingWindow.retained WindowEntry.timestamp (cutoff cfg) (recorded cs) := by
  induction cs using List.reverseRecOn with
  | nil => rfl
  | append_singleton cs c ih =>
      obtain ⟨op, now⟩ := c
      cases op with
      | recordSuccess => simp [apply, note, recordSuccess_window, ih]
      | recordFailure => simp [apply, note, recordFailure_window, ih]
      | reset => simp [apply, note, reset]

theorem recorded_timestamps (cs : List Call) :
    ∀ e ∈ recorded cs, ∃ c ∈ cs, e.timestamp = c.now := by
  induction cs using List.reverseRecOn with
  | nil => simp [recorded]
  | append_singleton cs c ih =>
      intro e he
      have hnew : e ∈ recorded cs ∨ e.timestamp = c.now := by
        rw [recorded_concat, note] at he
        split at he <;> simp at he
        · exact he.imp id (fun h => by rw [h])
        · exact he.imp id (fun h => by rw [h])
      rcases hnew with hold | hc
      · obtain ⟨d, hd, heq⟩ := ih e hold
        exact ⟨d, by simp [hd], heq⟩
      · exact ⟨c, by simp, hc⟩

theorem recorded_sorted {cs : List Call} (h : Nondecreasing cs) :
    (recorded cs).Pairwise (fun e f => e.timestamp ≤ f.timestamp) := by
  induction cs using List.reverseRecOn with
  | nil => exact .nil
  | append_singleton cs c ih =>
      obtain ⟨hcs, _, hlast⟩ := List.pairwise_append.1 h
      have hle (e : WindowEntry) (he : e ∈ recorded cs) : e.timestamp ≤ c.now := by
        obtain ⟨d, hd, heq⟩ := recorded_timestamps cs e he
        exact heq ▸ hlast d hd c (by simp)
      rw [recorded_concat, note]
      split
      · exact List.pairwise_append.2 ⟨ih hcs, by simp, by simpa using hle⟩
      · exact List.pairwise_append.2 ⟨ih hcs, by simp, by simpa using hle⟩
      · exact .nil

theorem admitted_eq_inWindow (now : ℕ) (es : List WindowEntry) :
    SlidingWindow.admitted WindowEntry.timestamp (cutoff cfg) now es = inWindow cfg now es := by
  unfold SlidingWindow.admitted inWindow cutoff
  apply List.filter_congr
  intro e _
  simp only [decide_eq_decide]
  omega

/-- After a failure at `now` the window is the part of the history that is not older than
`now - window`: entries pruned earlier would not count now either. -/
theorem window_after_failure {cs : List Call} {now : ℕ}
    (h : Nondecreasing (cs ++ [⟨.recordFailure, now⟩])) :
    (run cfg (cs ++ [⟨.recordFailure, now⟩])).window =
      inWindow cfg now (recorded (cs ++ [⟨.recordFailure, now⟩])) := by
  have hsort := recorded_sorted h
  have hrec : recorded (cs ++ [⟨.recordFailure, now⟩]) = recorded cs ++ [⟨now, false⟩] := by
    simp [note]
  rw [hrec] at hsort
  rw [run_window, hrec,
    SlidingWindow.retained_eq_admitted (cutoff_mono cfg) (cutoff_le cfg) _ _ hsort,
    admitted_eq_inWindow]

theorem recordFailure_of_closed {b : CircuitBreaker} (hb : b.state = .closed) (now : ℕ) :
    (recordFailure cfg now b).state = .open ↔ shouldOpen cfg (recordFailure cfg now b).window := by
  rw [recordFailure_window]
  unfold recordFailure
  rw [evaluateState_of_closed cfg now hb]
  unfold settleFailure
  simp only [addTotal_state, addTotal_window, appendWindow, hb]
  by_cases hs : shouldOpen cfg
    (SlidingWindow.push WindowEntry.timestamp (cutoff cfg) b.window ⟨now, false⟩) <;> simp [hs]

theorem opens_iff_evidence {cs : List Call} {now : ℕ}
    (h : Nondecreasing (cs ++ [⟨.recordFailure, now⟩])) (hc : (run cfg cs).state = .closed) :
    (run cfg (cs ++ [⟨.recordFailure, now⟩])).state = .open ↔
      Evidence cfg (inWindow cfg now (recorded (cs ++ [⟨.recordFailure, now⟩]))) := by
  have hwin := window_after_failure cfg h
  rw [run_concat] at hwin ⊢
  simp only [apply] at hwin ⊢
  rw [recordFailure_of_closed cfg hc, hwin, shouldOpen_iff]
  rfl

theorem opens_or_kept (b : CircuitBreaker) (c : Call) (ho : (apply cfg b c).state = .open) :
    Opens cfg b c ∧ (apply cfg b c).openedAt = some c.now ∨
      ¬ Opens cfg b c ∧ b.state = .open ∧ (apply cfg b c).openedAt = b.openedAt := by
  obtain ⟨op, now⟩ := c
  have hkept (h : (evaluateState cfg now b).1 = .open)
      (he : (apply cfg b ⟨op, now⟩).openedAt = (evaluateState cfg now b).2.openedAt) :
      ¬ Opens cfg b ⟨op, now⟩ ∧ b.state = .open ∧
        (apply cfg b ⟨op, now⟩).openedAt = b.openedAt := by
    obtain ⟨hb, hcell⟩ := evaluateState_open cfg now h
    exact ⟨fun hop => hop.1 h, hb, by rw [he, hcell]⟩
  cases op with
  | recordSuccess =>
      obtain ⟨hmid, hcell⟩ := settleSuccess_open cfg ho
      have hev : (evaluateState cfg now b).1 = .open := by
        rw [evaluateState_fst]
        simpa using hmid
      have hstamp : (apply cfg b ⟨.recordSuccess, now⟩).openedAt =
          (evaluateState cfg now b).2.openedAt := by
        change (settleSuccess cfg _).openedAt = _
        rw [hcell]
        simp
      exact .inr (hkept hev hstamp)
  | recordFailure =>
      rcases settleFailure_open cfg now ho with ⟨hmid, hcell⟩ | ⟨hmid, hstamp⟩
      · have hev : (evaluateState cfg now b).1 = .open := by
          rw [evaluateState_fst]
          simpa using hmid
        have hstamp : (apply cfg b ⟨.recordFailure, now⟩).openedAt =
            (evaluateState cfg now b).2.openedAt := by
          change (settleFailure cfg now _).openedAt = _
          rw [hcell]
          simp
        exact .inr (hkept hev hstamp)
      · refine .inl ⟨⟨?_, ho⟩, hstamp⟩
        rw [evaluateState_fst]
        simpa using hmid
  | reset => cases ho

theorem openedAt_eq_lastOpening (cs : List Call) (ho : (run cfg cs).state = .open) :
    ∃ t, lastOpening cfg cs = some t ∧ (run cfg cs).openedAt = some t := by
  induction cs using List.reverseRecOn with
  | nil => cases ho
  | append_singleton cs c ih =>
      rw [run_concat] at ho ⊢
      rw [lastOpening_concat]
      rcases opens_or_kept cfg _ c ho with ⟨hop, hstamp⟩ | ⟨hop, hprev, hstamp⟩
      · exact ⟨c.now, if_pos hop, hstamp⟩
      · obtain ⟨t, hlast, hat⟩ := ih hprev
        exact ⟨t, by rw [if_neg hop, hlast], hstamp.trans hat⟩

/-- A failure that finds the breaker closed opens it exactly on the evidence of the whole history
since the last reset, and the open state carries the instant at which it was entered. -/
theorem sequential_run_spec (cs : List Call) (h : Nondecreasing cs) :
    (∀ now, (∀ c ∈ cs, c.now ≤ now) → (run cfg cs).state = .closed →
      ((run cfg (cs ++ [⟨.recordFailure, now⟩])).state = .open ↔
        Evidence cfg (inWindow cfg now (recorded (cs ++ [⟨.recordFailure, now⟩]))))) ∧
    ((run cfg cs).state = .open →
      ∃ t, lastOpening cfg cs = some t ∧ (run cfg cs).openedAt = some t) := by
  refine ⟨?_, openedAt_eq_lastOpening cfg cs⟩
  intro now hnow hc
  refine opens_iff_evidence cfg (List.pairwise_append.2 ⟨h, by simp, ?_⟩) hc
  simpa using hnow

def fourRequests : BreakerConfig := ⟨1 / 2, 4, 60, 3, 60⟩

theorem sequential_run_spec_fourth_failure :
    (run fourRequests [⟨.recordSuccess, 0⟩, ⟨.recordFailure, 9⟩, ⟨.recordFailure, 50⟩,
      ⟨.recordFailure, 60⟩]).state = .open ∧
    ∃ t, lastOpening fourRequests [⟨.recordSuccess, 0⟩, ⟨.recordFailure, 9⟩,
        ⟨.recordFailure, 50⟩, ⟨.recordFailure, 60⟩] = some t ∧
      (run fourRequests [⟨.recordSuccess, 0⟩, ⟨.recordFailure, 9⟩, ⟨.recordFailure, 50⟩,
        ⟨.recordFailure, 60⟩]).openedAt = some t := by
  have hopen := ((sequential_run_spec fourRequests
    [⟨.recordSuccess, 0⟩, ⟨.recordFailure, 9⟩, ⟨.recordFailure, 50⟩] (by decide)).1 60
    (by decide) (by decide +kernel)).2 (by decide +kernel)
  exact ⟨hopen, (sequential_run_spec fourRequests _ (by decide)).2 hopen⟩

end Rszero.Breaker
