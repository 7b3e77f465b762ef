import Rszero.Error
import Rszero.TransitionSystem
import Mathlib.Data.Nat.Notation

/-!
# Shutdown of the HTTP server

`start_with_shutdown` races the serving task against a timer of 30 seconds, and the timer runs from
the start of serving, not from the signal. The clock counts milliseconds from the start. The serving
task may end once the signal has completed and no request is in flight; the timer lets no time pass
after it has run out.
-/

namespace Rszero.RestShutdown

/-- What binding the listener gives, when the signal completes, if ever, and how many requests are
in flight at each time. -/
structure Environment where
  listener : Except RszeroError Unit
  signal : Option ℕ
  inFlight : ℕ → ℕ

/-- `Duration::from_secs(30)` -/
def drainTimeout : ℕ := 30000

structure State where
  now : ℕ
  result : Option (Except RszeroError Unit)

/-- A branch of the `select!` is taken, or time passes. -/
inductive Label
  | tick
  | serve
  | timer

def Environment.signalled (env : Environment) (t : ℕ) : Bool := env.signal.any (fun s => s ≤ t)

/-- `axum::serve(..).with_graceful_shutdown(..)` may end with `Ok`. -/
def Environment.drained (env : Environment) (t : ℕ) : Bool :=
  env.signalled t && env.inFlight t == 0

def start (env : Environment) : State :=
  match env.listener with
  | .ok () => ⟨0, none⟩
  | .error e => ⟨0, some (.error e)⟩

def next (env : Environment) (s : State) (a : Label) : Option State :=
  match s.result, a with
  | some _, _ => none
  | none, .tick => if s.now < drainTimeout then some ⟨s.now + 1, none⟩ else none
  | none, .serve => if env.drained s.now then some ⟨s.now, some (.ok ())⟩ else none
  | none, .timer => if drainTimeout ≤ s.now then some ⟨s.now, some (.ok ())⟩ else none

def system (env : Environment) : TransitionSystem State Label where
  init := start env
  step := next env

/-- An `Ok` comes after the signal, and cuts off requests only 30 seconds after it. -/
def Lawful (env : Environment) (s : State) : Prop :=
  s.result = some (.ok ()) → ∃ t, env.signal = some t ∧ t ≤ s.now ∧
    (env.inFlight s.now ≠ 0 → t + drainTimeout ≤ s.now)

/-- The server does not get to serve, or the signal completes within 30 seconds from the start and
by then no request is in flight, unless the signal has completed at the very start. -/
def Timely (env : Environment) : Prop :=
  (∃ e, env.listener = .error e) ∨
    ∃ t, env.signal = some t ∧ t ≤ drainTimeout ∧ (t = 0 ∨ env.inFlight drainTimeout = 0)

variable {env : Environment}

theorem start_of_ok (h : env.listener = .ok ()) : start env = ⟨0, none⟩ := by
  unfold start
  rw [h]

theorem start_of_error {e : RszeroError} (h : env.listener = .error e) :
    start env = ⟨0, some (.error e)⟩ := by
  unfold start
  rw [h]

/-- The server is still there when the timer has run out, whatever has happened. -/
theorem reachable_serving (h : env.listener = .ok ()) {t : ℕ} (ht : t ≤ drainTimeout) :
    (system env).Reachable (fun _ _ => True) ⟨t, none⟩ := by
  induction t with
  | zero =>
      rw [← start_of_ok h]
      exact .init
  | succ t ih =>
      refine .step (a := .tick) (ih (Nat.le_of_succ_le ht)) trivial ?_
      exact if_pos ht

theorem reachable_forced (h : env.listener = .ok ()) :
    (system env).Reachable (fun _ _ => True) ⟨drainTimeout, some (.ok ())⟩ :=
  .step (a := .timer) (reachable_serving h (Nat.le_refl _)) trivial rfl

structure Ends (env : Environment) (s : State) : Prop where
  bound : env.listener = .ok ()
  ended : env.drained s.now ∨ s.now = drainTimeout

theorem next_cases {s s' : State} {a : Label} (h : next env s a = some s') :
    s.result = none ∧
      (s' = ⟨s.now + 1, none⟩ ∧ s.now < drainTimeout ∨
        s' = ⟨s.now, some (.ok ())⟩ ∧ (env.drained s.now ∨ drainTimeout ≤ s.now)) := by
  unfold next at h
  split at h
  · cases h
  · split_ifs at h with hlt
    exact ⟨‹_›, .inl ⟨(Option.some.inj h).symm, hlt⟩⟩
  · split_ifs at h with hdrained
    exact ⟨‹_›, .inr ⟨(Option.some.inj h).symm, .inl hdrained⟩⟩
  · split_ifs at h with htimer
    exact ⟨‹_›, .inr ⟨(Option.some.inj h).symm, .inr htimer⟩⟩

theorem ends_of_reachable {s : State} (hx : (system env).Reachable (fun _ _ => True) s) :
    s.now ≤ drainTimeout ∧ (s.result = none → env.listener = .ok ()) ∧
      (s.result = some (.ok ()) → Ends env s) := by
  refine hx.invariant (I := fun s => s.now ≤ drainTimeout ∧
    (s.result = none → env.listener = .ok ()) ∧ (s.result = some (.ok ()) → Ends env s)) ?_ ?_
  · cases hlistener : env.listener with
    | ok u =>
        change (start env).now ≤ _ ∧ (_ → _) ∧ ((start env).result = _ → _)
        rw [start_of_ok hlistener]
        exact ⟨Nat.zero_le _, fun _ => rfl, nofun⟩
    | error e =>
        change (start env).now ≤ _ ∧ ((start env).result = _ → _) ∧ ((start env).result = _ → _)
        rw [start_of_error hlistener]
        exact ⟨Nat.zero_le _, nofun, fun hresult => by cases hresult⟩
  · rintro s a s' ⟨hnow, hbound, -⟩ - hstep
    obtain ⟨hnone, ⟨rfl, hlt⟩ | ⟨rfl, hended⟩⟩ := next_cases hstep
    · exact ⟨hlt, fun _ => hbound hnone, nofun⟩
    · refine ⟨hnow, nofun, fun _ => ⟨hbound hnone, hended.imp_right ?_⟩⟩
      exact fun htimer => Nat.le_antisymm hnow htimer

/-- In every run the server lives until the signal and drains its requests, exactly when the signal
comes and the requests end within the 30 seconds that the server lives anyway. -/
theorem lawful_iff_timely (env : Environment) :
    (∀ s, (system env).Reachable (fun _ _ => True) s → Lawful env s) ↔ Timely env := by
  constructor
  · intro hlawful
    cases hlistener : env.listener with
    | error e => exact .inl ⟨e, hlistener⟩
    | ok u =>
        obtain ⟨t, hsignal, hle, hcut⟩ := hlawful _ (reachable_forced hlistener) rfl
        refine .inr ⟨t, hsignal, hle, ?_⟩
        by_cases hload : env.inFlight drainTimeout = 0
        · exact .inr hload
        · have hstart := hcut hload
          simp only at hstart
          exact .inl (by omega)
  · intro htimely s hx hresult
    obtain ⟨hbound, hended⟩ := (ends_of_reachable hx).2.2 hresult
    obtain ⟨e, herror⟩ | ⟨t, hsignal, hle, hload⟩ := htimely
    · rw [hbound] at herror
      cases herror
    rcases hended with hdrained | hnow
    · simp only [Environment.drained, Environment.signalled, hsignal, Option.any_some,
        Bool.and_eq_true, decide_eq_true_eq, beq_iff_eq] at hdrained
      exact ⟨t, hsignal, hdrained.1, fun hne => absurd hdrained.2 hne⟩
    · rw [hnow]
      refine ⟨t, hsignal, hle, fun hne => ?_⟩
      obtain rfl := hload.resolve_right hne
      exact Nat.le_of_eq (Nat.zero_add _)

def neverSignalled : Environment := ⟨.ok (), none, fun _ => 0⟩

/-- The server is gone after 30 seconds all the same. -/
theorem neverSignalled_not_lawful :
    ∃ s, (system neverSignalled).Reachable (fun _ _ => True) s ∧ s.now = 30000 ∧
      s.result = some (.ok ()) ∧ ¬ Lawful neverSignalled s := by
  refine ⟨_, reachable_forced rfl, rfl, rfl, ?_⟩
  intro hlawful
  obtain ⟨t, hsignal, -⟩ := hlawful rfl
  cases hsignal

end Rszero.RestShutdown
