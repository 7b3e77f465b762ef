import Rszero.SlidingWindow
import Mathlib.Data.Rat.Defs
import Mathlib.Algebra.Order.Ring.Rat

/-!
# The circuit breaker

The cells of a `CircuitBreaker` and its operations as they act when nothing interferes: each call
reads the clock once, at `now`. Instants and durations are natural numbers of one unit; the
comparisons `elapsed ≥ cooldown` and `timestamp ≥ now - window` are the ones of the source. The
failure rate and its threshold are rational numbers, so the division and the comparison are exact.
The counters are `AtomicU64`s and wrap around.
-/

namespace Rszero.Breaker

inductive BreakerState
  | closed
  | «open»
  | halfOpen
  deriving DecidableEq

structure WindowEntry where
  timestamp : ℕ
  success : Bool
  deriving DecidableEq

structure BreakerConfig where
  failureThreshold : ℚ
  minRequests : ℕ
  cooldown : ℕ
  maxProbes : ℕ
  window : ℕ

structure CircuitBreaker where
  state : BreakerState
  openedAt : Option ℕ
  window : List WindowEntry
  probeCount : ℕ
  totalSuccess : ℕ
  totalFailure : ℕ
  deriving DecidableEq

def CircuitBreaker.new : CircuitBreaker where
  state := .closed
  openedAt := none
  window := []
  probeCount := 0
  totalSuccess := 0
  totalFailure := 0

/-- The value an `AtomicU64` holds after `fetch_add(1)`. -/
def fetchAdd (n : ℕ) : ℕ := (n + 1) % 2 ^ 64

theorem fetchAdd_le (n : ℕ) : fetchAdd n ≤ n + 1 := Nat.mod_le _ _

theorem fetchAdd_of_lt {n : ℕ} (h : n + 1 < 2 ^ 64) : fetchAdd n = n + 1 := Nat.mod_eq_of_lt h

/-- The test of `evaluate_state` on the instant read from `opened_at`. -/
def cooledDown (cfg : BreakerConfig) (now : ℕ) (opened : Option ℕ) : Bool :=
  opened.any (fun t => cfg.cooldown ≤ now - t)

theorem cooledDown_iff {cfg : BreakerConfig} {now : ℕ} {opened : Option ℕ} :
    cooledDown cfg now opened ↔ ∃ t, opened = some t ∧ cfg.cooldown ≤ now - t := by
  cases opened <;> simp [cooledDown]

def failures (es : List WindowEntry) : ℕ := (es.filter (fun e => !e.success)).length

def shouldOpen (cfg : BreakerConfig) (es : List WindowEntry) : Bool :=
  if es.length < cfg.minRequests then false
  else cfg.failureThreshold ≤ (failures es : ℚ) / es.length

theorem shouldOpen_iff {cfg : BreakerConfig} {es : List WindowEntry} :
    shouldOpen cfg es ↔ cfg.minRequests ≤ es.length ∧
      cfg.failureThreshold ≤ (failures es : ℚ) / es.length := by
  by_cases h : es.length < cfg.minRequests
  · simp [shouldOpen, h]
  · simp [shouldOpen, h, Nat.le_of_not_lt h]

def cutoff (cfg : BreakerConfig) (now : ℕ) : ℕ := now - cfg.window

theorem cutoff_mono (cfg : BreakerConfig) : Monotone (cutoff cfg) :=
  fun _ _ h => Nat.sub_le_sub_right h _

theorem cutoff_le (cfg : BreakerConfig) (now : ℕ) : cutoff cfg now ≤ now := Nat.sub_le _ _

variable (cfg : BreakerConfig) (now : ℕ)

def evaluateState (b : CircuitBreaker) : BreakerState × CircuitBreaker :=
  if b.state ≠ .open then (b.state, b)
  else if cooledDown cfg now b.openedAt then
    (.halfOpen, { b with state := .halfOpen, probeCount := 0 })
  else (.open, b)

def appendWindow (ok : Bool) (b : CircuitBreaker) : CircuitBreaker :=
  { b with window := SlidingWindow.push WindowEntry.timestamp (cutoff cfg) b.window ⟨now, ok⟩ }

def addTotal (ok : Bool) (b : CircuitBreaker) : CircuitBreaker :=
  if ok then { b with totalSuccess := fetchAdd b.totalSuccess }
  else { b with totalFailure := fetchAdd b.totalFailure }

/-- The part of `record_success` under the write guard of `state`. -/
def settleSuccess (b : CircuitBreaker) : CircuitBreaker :=
  if b.state = .halfOpen then
    let probes := fetchAdd b.probeCount
    if cfg.maxProbes ≤ probes then { b with state := .closed, probeCount := 0 }
    else { b with probeCount := probes }
  else b

/-- The part of `record_failure` under the write guard of `state`. -/
def settleFailure (b : CircuitBreaker) : CircuitBreaker :=
  match b.state with
  | .closed =>
      if shouldOpen cfg b.window then { b with state := .open, openedAt := some now } else b
  | .halfOpen => { b with state := .open, openedAt := some now, probeCount := 0 }
  | .open => b

def recordSuccess (b : CircuitBreaker) : CircuitBreaker :=
  settleSuccess cfg (addTotal true (appendWindow cfg now true (evaluateState cfg now b).2))

def recordFailure (b : CircuitBreaker) : CircuitBreaker :=
  settleFailure cfg now (addTotal false (appendWindow cfg now false (evaluateState cfg now b).2))

def reset (b : CircuitBreaker) : CircuitBreaker :=
  { b with state := .closed, openedAt := none, window := [], probeCount := 0 }

def isOpen (b : CircuitBreaker) : Bool × CircuitBreaker :=
  ((evaluateState cfg now b).1 == .open, (evaluateState cfg now b).2)

def isClosed (b : CircuitBreaker) : Bool × CircuitBreaker :=
  ((evaluateState cfg now b).1 == .closed, (evaluateState cfg now b).2)

@[simp] theorem addTotal_state (ok : Bool) (b : CircuitBreaker) :
    (addTotal ok b).state = b.state := by cases ok <;> rfl

@[simp] theorem addTotal_openedAt (ok : Bool) (b : CircuitBreaker) :
    (addTotal ok b).openedAt = b.openedAt := by cases ok <;> rfl

@[simp] theorem addTotal_window (ok : Bool) (b : CircuitBreaker) :
    (addTotal ok b).window = b.window := by cases ok <;> rfl

@[simp] theorem addTotal_probeCount (ok : Bool) (b : CircuitBreaker) :
    (addTotal ok b).probeCount = b.probeCount := by cases ok <;> rfl

@[simp] theorem appendWindow_state (ok : Bool) (b : CircuitBreaker) :
    (appendWindow cfg now ok b).state = b.state := rfl

@[simp] theorem appendWindow_openedAt (ok : Bool) (b : CircuitBreaker) :
    (appendWindow cfg now ok b).openedAt = b.openedAt := rfl

@[simp] theorem appendWindow_probeCount (ok : Bool) (b : CircuitBreaker) :
    (appendWindow cfg now ok b).probeCount = b.probeCount := rfl

theorem evaluateState_cells (b : CircuitBreaker) :
    (evaluateState cfg now b).2 = b ∨ b.state = .open ∧
      (evaluateState cfg now b).2 = { b with state := .halfOpen, probeCount := 0 } := by
  by_cases hs : b.state = .open
  · by_cases hc : cooledDown cfg now b.openedAt <;> simp [evaluateState, hs, hc]
  · simp [evaluateState, hs]

@[simp] theorem evaluateState_window (b : CircuitBreaker) :
    (evaluateState cfg now b).2.window = b.window := by
  rcases evaluateState_cells cfg now b with h | ⟨_, h⟩ <;> rw [h]

theorem evaluateState_fst (b : CircuitBreaker) :
    (evaluateState cfg now b).1 = (evaluateState cfg now b).2.state := by
  by_cases hs : b.state = .open
  · by_cases hc : cooledDown cfg now b.openedAt <;> simp [evaluateState, hs, hc]
  · simp [evaluateState, hs]

theorem evaluateState_open {b : CircuitBreaker} (h : (evaluateState cfg now b).1 = .open) :
    b.state = .open ∧ (evaluateState cfg now b).2 = b := by
  rw [evaluateState_fst] at h
  rcases evaluateState_cells cfg now b with hb | ⟨_, hb⟩
  · exact ⟨hb ▸ h, hb⟩
  · rw [hb] at h
    cases h

theorem evaluateState_of_closed {b : CircuitBreaker} (h : b.state = .closed) :
    evaluateState cfg now b = (.closed, b) := by simp [evaluateState, h]

theorem settleSuccess_open {b : CircuitBreaker} (h : (settleSuccess cfg b).state = .open) :
    b.state = .open ∧ settleSuccess cfg b = b := by
  by_cases hb : b.state = .halfOpen
  · by_cases hp : cfg.maxProbes ≤ fetchAdd b.probeCount <;> simp [settleSuccess, hb, hp] at h
  · have hcell : settleSuccess cfg b = b := by simp [settleSuccess, hb]
    exact ⟨hcell ▸ h, hcell⟩

theorem settleFailure_open {b : CircuitBreaker} (h : (settleFailure cfg now b).state = .open) :
    b.state = .open ∧ settleFailure cfg now b = b ∨
      b.state ≠ .open ∧ (settleFailure cfg now b).openedAt = some now := by
  cases hb : b.state with
  | closed =>
      by_cases hs : shouldOpen cfg b.window <;> simp [settleFailure, hb, hs] at h ⊢
  | halfOpen => simp [settleFailure, hb]
  | «open» => simp [settleFailure, hb]

theorem recordSuccess_window (b : CircuitBreaker) : (recordSuccess cfg now b).window =
    SlidingWindow.push WindowEntry.timestamp (cutoff cfg) b.window ⟨now, true⟩ := by
  unfold recordSuccess settleSuccess
  dsimp only
  split_ifs <;> simp [appendWindow]

theorem recordFailure_window (b : CircuitBreaker) : (recordFailure cfg now b).window =
    SlidingWindow.push WindowEntry.timestamp (cutoff cfg) b.window ⟨now, false⟩ := by
  unfold recordFailure settleFailure
  split
  · split_ifs <;> simp [appendWindow]
  · simp [appendWindow]
  · simp [appendWindow]

end Rszero.Breaker
