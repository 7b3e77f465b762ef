import Mathlib.Algebra.Order.Ring.Nat
import Rszero.ConcurrentPrograms

/-!
# The adaptive load shedder

A function is the program of its atomic accesses, so the calls of many threads interleave between
any two of them. The counters do not wrap around.
-/

namespace Rszero.Shedder

open CallProgram

/-- The `AtomicU64` fields. -/
inductive Counter
  | latency_threshold_ms
  | avg_latency_ms
  | sample_count
  | latency_sum
  | reject_probability
  deriving DecidableEq

structure AdaptiveShedder where
  active : Bool
  counter : Counter → ℕ

namespace AdaptiveShedder

def new (latency_threshold_ms : ℕ) : AdaptiveShedder where
  active := false
  counter
    | .latency_threshold_ms => latency_threshold_ms
    | _ => 0

def set (s : AdaptiveShedder) (c : Counter) (n : ℕ) : AdaptiveShedder :=
  { s with counter := Function.update s.counter c n }

def is_active (s : AdaptiveShedder) : Bool := s.active

def rejectProbability (s : AdaptiveShedder) : ℕ := s.counter .reject_probability

end AdaptiveShedder

inductive Access
  | load (c : Counter)
  | store (c : Counter) (n : ℕ)
  | fetchAdd (c : Counter) (n : ℕ)
  | loadActive
  | storeActive (b : Bool)

abbrev Access.Answer : Access → Type
  | .load _ => ℕ
  | .store .. => Unit
  | .fetchAdd .. => ℕ
  | .loadActive => Bool
  | .storeActive _ => Unit

def perform (s : AdaptiveShedder) : (op : Access) → op.Answer × AdaptiveShedder
  | .load c => (s.counter c, s)
  | .store c n => ((), s.set c n)
  | .fetchAdd c n => (s.counter c, s.set c (s.counter c + n))
  | .loadActive => (s.active, s)
  | .storeActive b => ((), { s with active := b })

/-- What `should_reject` returns; the other functions return nothing. -/
abbrev Program := CallProgram Access.Answer (Option Bool)

/-- `(excess * 100.0).min(95.0) as u64 * 100` -/
def probability (avg threshold : ℕ) : ℕ :=
  let excess := (avg - threshold).toUInt64.toFloat / threshold.toUInt64.toFloat
  let percent := if excess * 100.0 < 95.0 then excess * 100.0 else 95.0
  percent.toUInt64.toNat * 100

def resetWindow (count : ℕ) : Program :=
  if count > 1000 then
    .call (.store .sample_count 0) fun _ => .call (.store .latency_sum 0) fun _ => .done none
  else .done none

def deactivateAtZero (count : ℕ) : Program :=
  .call (.load .reject_probability) fun current =>
    if current = 0 then .call (.storeActive false) fun _ => resetWindow count
    else resetWindow count

def settle (count avg : ℕ) : Program :=
  .call (.store .avg_latency_ms avg) fun _ =>
    .call (.load .latency_threshold_ms) fun threshold =>
      if avg > threshold then
        .call (.store .reject_probability (probability avg threshold)) fun _ =>
          .call (.storeActive true) fun _ => resetWindow count
      else
        .call (.load .reject_probability) fun current =>
          if current > 0 then
            .call (.store .reject_probability (current - 500)) fun _ => deactivateAtZero count
          else deactivateAtZero count

/-- `counted` is what `sample_count` was before the call raised it. -/
def addLatency (latency_ms counted : ℕ) : Program :=
  .call (.fetchAdd .latency_sum latency_ms) fun sum =>
    settle (counted + 1) ((sum + latency_ms) / (counted + 1))

def recordLatency (latency_ms : ℕ) : Program :=
  .call (.fetchAdd .sample_count 1) fun counted => addLatency latency_ms counted

/-- `draw` is `fastrand::u64(0..10000)`. -/
def shouldReject (draw : ℕ) : Program :=
  .call .loadActive fun active =>
    if active then
      .call (.load .reject_probability) fun prob =>
        .done (some (if prob = 0 then false else decide (draw < prob)))
    else .done (some false)

def activate : Program :=
  .call (.storeActive true) fun _ => .call (.store .reject_probability 5000) fun _ => .done none

def deactivate : Program :=
  .call (.storeActive false) fun _ => .call (.store .reject_probability 0) fun _ => .done none

inductive Request
  | recordLatency (latency_ms : ℕ)
  | shouldReject (draw : ℕ)
  | activate
  | deactivate

def Request.body : Request → Program
  | .recordLatency latency_ms => Shedder.recordLatency latency_ms
  | .shouldReject draw => Shedder.shouldReject draw
  | .activate => Shedder.activate
  | .deactivate => Shedder.deactivate

def platform (latency_threshold_ms : ℕ) :
    Platform Access.Answer Request (Option Bool) AdaptiveShedder Unit Empty where
  shared := .new latency_threshold_ms
  body := Request.body
  perform s _ op := some (Shedder.perform s op)
  env _ e := nomatch e

abbrev Task := Platform.Task Access.Answer Request (Option Bool)
abbrev State := Platform.State Access.Answer Request (Option Bool) AdaptiveShedder
abbrev Label := Platform.Label Request Unit Empty

def system (latency_threshold_ms : ℕ) : TransitionSystem State Label :=
  (platform latency_threshold_ms).system

end Rszero.Shedder
