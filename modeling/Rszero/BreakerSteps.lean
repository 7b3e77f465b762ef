import Rszero.Breaker
import Rszero.TransitionSystem
import Mathlib.Logic.Function.Basic

/-!
# Interleaved calls on one breaker

A step of a call is the code from one await point to the next, and every operation on an atomic
counter is a step of its own. The await points are the acquisitions of the locks and the future
passed to `execute`. Only the guards that a call keeps across an await point need a holder: these
are write guards on `state`; every other guard lives inside one step. A free lock may go to any
caller that waits for it. Between steps the clock may advance, and a future that `execute` awaits
may finish or be dropped with its call.
-/

namespace Rszero.Breaker

abbrev CallId := ℕ

inductive RszeroError
  | circuitBreaker
  | rpc (message : String)

/-- On what `execute` starts its future: the last answer of `evaluate_state`, and the value its
`fetch_add` on the probe counter returned, if it made one. -/
structure Grant where
  answer : BreakerState
  probe : Option ℕ

/-- Who calls `record_success` or `record_failure`. Inside `execute` the outcome of the future is
what the call returns in the end; an error is kept as its `to_string()`. -/
inductive Origin (T : Type)
  | direct
  | execute (g : Grant) (outcome : Except String T)

inductive Caller (T : Type)
  | isOpen
  | isClosed
  | executeIsOpen
  | executeProbe
  | record (ok : Bool) (o : Origin T)

inductive Output (T : Type)
  | bool (b : Bool)
  | unit
  | executed (r : Except RszeroError T)

/-- The point a call has reached, named after what it does next: first those of `evaluate_state`,
then those of `execute`, of `record_success` and `record_failure`, and of `reset`. The clock for
`opened_at` is read before the lock on it is awaited. -/
inductive Pc (T : Type)
  | idle
  | readState (k : Caller T)
  | readOpenedAt (k : Caller T)
  | lockHalfOpen (k : Caller T)
  | storeHalfOpen (k : Caller T)
  | fetchProbe (answer : BreakerState)
  | compareProbe (answer : BreakerState) (probe : ℕ)
  | awaiting (g : Grant)
  | appendWindow (ok : Bool) (o : Origin T)
  | addTotal (ok : Bool) (o : Origin T)
  | lockOutcome (ok : Bool) (o : Origin T)
  | fetchSuccess (o : Origin T)
  | compareSuccess (o : Origin T) (probes : ℕ)
  | storeClosed (o : Origin T)
  | readWindow (o : Origin T)
  | stampOpen (o : Origin T) (probing : Bool) (openedAt : ℕ)
  | storeOpen (o : Origin T)
  | lockReset
  | clearOpenedAt
  | clearWindow
  | storeReset
  | returned (r : Output T)
  | dropped

variable {T : Type}

def finished : Origin T → Pc T
  | .direct => .returned .unit
  | .execute _ (.ok v) => .returned (.executed (.ok v))
  | .execute _ (.error e) => .returned (.executed (.error (.rpc e)))

/-- The code that follows an answer of `evaluate_state`, up to the next await point or counter. -/
def resume (k : Caller T) (answer : BreakerState) : Pc T :=
  match k with
  | .isOpen => .returned (.bool (answer == .open))
  | .isClosed => .returned (.bool (answer == .closed))
  | .executeIsOpen =>
      if answer = .open then .returned (.executed (.error .circuitBreaker))
      else .readState .executeProbe
  | .executeProbe =>
      if answer = .halfOpen then .fetchProbe answer else .awaiting ⟨answer, none⟩
  | .record ok o => .appendWindow ok o

/-- One step of call `c` on the cells `b` and the write guard `g` of `state`; `none` while it
waits for something else. -/
def advance (cfg : BreakerConfig) (now : ℕ) (c : CallId) (b : CircuitBreaker)
    (g : Option CallId) : Pc T → Option (CircuitBreaker × Option CallId × Pc T)
  | .readState k =>
      if g ≠ none then none
      else if b.state ≠ .open then some (b, g, resume k b.state)
      else some (b, g, .readOpenedAt k)
  | .readOpenedAt k =>
      if cooledDown cfg now b.openedAt then some (b, g, .lockHalfOpen k)
      else some (b, g, resume k .open)
  | .lockHalfOpen k =>
      if g ≠ none then none
      else if b.state = .open then some ({ b with state := .halfOpen }, some c, .storeHalfOpen k)
      else some (b, g, resume k .halfOpen)
  | .storeHalfOpen k => some ({ b with probeCount := 0 }, none, resume k .halfOpen)
  | .fetchProbe answer =>
      some ({ b with probeCount := fetchAdd b.probeCount }, g, .compareProbe answer b.probeCount)
  | .compareProbe answer probe =>
      if cfg.maxProbes ≤ probe then some (b, g, .returned (.executed (.error .circuitBreaker)))
      else some (b, g, .awaiting ⟨answer, some probe⟩)
  | .appendWindow ok o => some (Breaker.appendWindow cfg now ok b, g, .addTotal ok o)
  | .addTotal ok o => some (Breaker.addTotal ok b, g, .lockOutcome ok o)
  | .lockOutcome true o =>
      if g ≠ none then none
      else if b.state = .halfOpen then some (b, some c, .fetchSuccess o)
      else some (b, g, finished o)
  | .lockOutcome false o =>
      if g ≠ none then none
      else match b.state with
        | .closed => some (b, some c, .readWindow o)
        | .halfOpen => some ({ b with state := .open }, some c, .stampOpen o true now)
        | .open => some (b, g, finished o)
  | .fetchSuccess o =>
      some ({ b with probeCount := fetchAdd b.probeCount }, g,
        .compareSuccess o (fetchAdd b.probeCount))
  | .compareSuccess o probes =>
      if cfg.maxProbes ≤ probes then some ({ b with state := .closed }, g, .storeClosed o)
      else some (b, none, finished o)
  | .storeClosed o => some ({ b with probeCount := 0 }, none, finished o)
  | .readWindow o =>
      if shouldOpen cfg b.window then some ({ b with state := .open }, g, .stampOpen o false now)
      else some (b, none, finished o)
  | .stampOpen o true t => some ({ b with openedAt := some t }, g, .storeOpen o)
  | .stampOpen o false t => some ({ b with openedAt := some t }, none, finished o)
  | .storeOpen o => some ({ b with probeCount := 0 }, none, finished o)
  | .lockReset =>
      if g ≠ none then none
      else some ({ b with state := .closed }, some c, .clearOpenedAt)
  | .clearOpenedAt => some ({ b with openedAt := none }, g, .clearWindow)
  | .clearWindow => some ({ b with window := [] }, g, .storeReset)
  | .storeReset => some ({ b with probeCount := 0 }, none, .returned .unit)
  | .idle | .awaiting _ | .returned _ | .dropped => none

inductive Request
  | execute
  | recordSuccess
  | recordFailure
  | isOpen
  | isClosed
  | reset

def entry : Request → Pc T
  | .execute => .readState .executeIsOpen
  | .recordSuccess => .readState (.record true .direct)
  | .recordFailure => .readState (.record false .direct)
  | .isOpen => .readState .isOpen
  | .isClosed => .readState .isClosed
  | .reset => .lockReset

structure State (T : Type) where
  cells : CircuitBreaker
  guard : Option CallId
  now : ℕ
  calls : CallId → Pc T

inductive Label (T : Type)
  | call (c : CallId) (q : Request)
  | step (c : CallId)
  | finish (c : CallId) (outcome : Except String T)
  | drop (c : CallId)
  | tick (d : ℕ)

namespace State

def put (s : State T) (c : CallId) (pc : Pc T) : State T :=
  { s with calls := Function.update s.calls c pc }

@[simp] theorem put_cells (s : State T) (c : CallId) (pc : Pc T) :
    (s.put c pc).cells = s.cells := rfl

@[simp] theorem put_guard (s : State T) (c : CallId) (pc : Pc T) :
    (s.put c pc).guard = s.guard := rfl

@[simp] theorem put_now (s : State T) (c : CallId) (pc : Pc T) : (s.put c pc).now = s.now := rfl

@[simp] theorem put_calls_self (s : State T) (c : CallId) (pc : Pc T) :
    (s.put c pc).calls c = pc := Function.update_self ..

theorem put_calls_of_ne (s : State T) {c d : CallId} (pc : Pc T) (h : d ≠ c) :
    (s.put c pc).calls d = s.calls d := Function.update_of_ne h ..

/-- A property of all calls survives a step of one call that establishes it for that call. -/
theorem forall_put {p : Pc T → Prop} {s : State T} {c : CallId} {pc : Pc T}
    (hs : ∀ d, p (s.calls d)) (hpc : p pc) (d : CallId) : p ((s.put c pc).calls d) := by
  by_cases hd : d = c
  · rwa [hd, put_calls_self]
  · rw [put_calls_of_ne s pc hd]
    exact hs d

def next (cfg : BreakerConfig) (s : State T) : Label T → Option (State T)
  | .call c q => match s.calls c with
      | .idle => some (s.put c (entry q))
      | _ => none
  | .step c => (advance cfg s.now c s.cells s.guard (s.calls c)).map
      (fun r => { s with cells := r.1, guard := r.2.1 }.put c r.2.2)
  | .finish c outcome => match s.calls c with
      | .awaiting g => some (s.put c (.readState (.record outcome.toBool (.execute g outcome))))
      | _ => none
  | .drop c => match s.calls c with
      | .awaiting _ => some (s.put c .dropped)
      | _ => none
  | .tick d => some { s with now := s.now + d }

end State

def system (T : Type) (cfg : BreakerConfig) : TransitionSystem (State T) (Label T) where
  init := ⟨.new, none, 0, fun _ => .idle⟩
  step := State.next cfg

variable {cfg : BreakerConfig}

/-- What a step of the system is: a new call, one `advance` of a call, the end of a future, or
the passing of time. -/
theorem next_cases {s s' : State T} {a : Label T} (h : (system T cfg).step s a = some s') :
    (∃ c q, a = .call c q ∧ s.calls c = .idle ∧ s' = s.put c (entry q)) ∨
    (∃ c b g pc, a = .step c ∧ advance cfg s.now c s.cells s.guard (s.calls c) = some (b, g, pc) ∧
      s' = { s with cells := b, guard := g }.put c pc) ∨
    (∃ c g outcome, a = .finish c outcome ∧ s.calls c = .awaiting g ∧
      s' = s.put c (.readState (.record outcome.toBool (.execute g outcome)))) ∨
    (∃ c g, a = .drop c ∧ s.calls c = .awaiting g ∧ s' = s.put c .dropped) ∨
    (∃ d, a = .tick d ∧ s' = { s with now := s.now + d }) := by
  cases a with
  | call c q =>
      change (match s.calls c with | .idle => some (s.put c (entry q)) | _ => none) = some s' at h
      split at h
      · exact .inl ⟨c, q, rfl, ‹_›, (Option.some.inj h).symm⟩
      · cases h
  | step c =>
      obtain ⟨⟨b, g, pc⟩, hr, hs⟩ := Option.map_eq_some_iff.1 h
      exact .inr (.inl ⟨c, b, g, pc, rfl, hr, hs.symm⟩)
  | finish c outcome =>
      change (match s.calls c with
        | .awaiting g => some (s.put c (.readState (.record outcome.toBool (.execute g outcome))))
        | _ => none) = some s' at h
      split at h
      · exact .inr (.inr (.inl ⟨c, _, outcome, rfl, ‹_›, (Option.some.inj h).symm⟩))
      · cases h
  | drop c =>
      change (match s.calls c with
        | .awaiting _ => some (s.put c .dropped)
        | _ => none) = some s' at h
      split at h
      · exact .inr (.inr (.inr (.inl ⟨c, _, rfl, ‹_›, (Option.some.inj h).symm⟩)))
      · cases h
  | tick d => exact .inr (.inr (.inr (.inr ⟨d, rfl, (Option.some.inj h).symm⟩)))

def Label.caller : Label T → Option CallId
  | .call c _ | .step c | .finish c _ | .drop c => some c
  | .tick _ => none

/-- A step leaves the calls alone that its label does not name. -/
theorem next_calls_of_ne {s s' : State T} {a : Label T} {d : CallId}
    (h : (system T cfg).step s a = some s') (hd : a.caller ≠ some d) : s'.calls d = s.calls d := by
  rcases next_cases h with ⟨c, q, rfl, -, rfl⟩ | ⟨c, b, g, pc, rfl, -, rfl⟩ |
    ⟨c, g, outcome, rfl, -, rfl⟩ | ⟨c, g, rfl, -, rfl⟩ | ⟨t, -, rfl⟩
  · exact State.put_calls_of_ne _ _ (fun he => hd (congrArg some he.symm))
  · exact State.put_calls_of_ne _ _ (fun he => hd (congrArg some he.symm))
  · exact State.put_calls_of_ne _ _ (fun he => hd (congrArg some he.symm))
  · exact State.put_calls_of_ne _ _ (fun he => hd (congrArg some he.symm))
  · rfl

def Pc.over : Pc T → Bool
  | .idle | .returned _ | .dropped => true
  | _ => false

/-- When the calls that a run names are over, every call is. -/
theorem over_of_callers {s : State T} {as : List (Label T)}
    (h : (system T cfg).exec (system T cfg).init as = some s)
    (hover : as.all (fun a => a.caller.all (fun c => (s.calls c).over))) (c : CallId) :
    (s.calls c).over := by
  by_cases hc : ∃ a ∈ as, a.caller = some c
  · obtain ⟨a, ha, hac⟩ := hc
    have hall := List.all_eq_true.1 hover a ha
    rwa [hac] at hall
  · push Not at hc
    rw [(system T cfg).exec_frame (f := State.calls) (fun _ _ _ _ => next_calls_of_ne) h hc]
    rfl

def oneFailure : BreakerConfig := ⟨1 / 2, 1, 60, 1, 60⟩

/-- A call of `record_failure` and its steps, when the failure opens the breaker. -/
def openingBy (c : CallId) : List (Label Unit) :=
  .call c .recordFailure :: List.replicate 6 (.step c)

end Rszero.Breaker
