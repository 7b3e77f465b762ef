import Rszero.BoundedChannel
import Rszero.TransitionSystem

/-!
# Background worker

`Worker::run` takes a permit for each message that it receives and spawns a task, which runs the
handler with retries under a timeout and offers the message to the dead-letter channel when that
fails. A task that panics in the handler offers it to nobody, and `try_send` gives up on a full
channel. Messages are known by the order of their receipt; the timeout of a task may strike at any
time while the task is in an attempt or in the pause before the next one.
-/

namespace Rszero.Worker

/-- Attempts are counted from zero. `failed` stands between the end of `execute_with_retry`, or of
the timeout, and `try_send`. -/
inductive Stage
  | attempt (k : ℕ)
  | backoff (k : ℕ)
  | failed
  | finished
  deriving DecidableEq

structure Task (M : Type*) where
  message : M
  stage : Stage

inductive Loop (M : Type*)
  | receiving
  | acquiring (m : M)
  | joining
  | returned

structure JobConfig where
  concurrency : ℕ
  max_retries : ℕ

def JobConfig.default : JobConfig := ⟨4, 3⟩

def JobConfig.withConcurrency (config : JobConfig) (n : ℕ) : JobConfig :=
  { config with concurrency := max n 1 }

def JobConfig.withMaxRetries (config : JobConfig) (n : ℕ) : JobConfig :=
  { config with max_retries := n }

variable {M : Type*} {capacity : ℕ}

structure State (M : Type*) (capacity : ℕ) where
  loop : Loop M
  permits : ℕ
  tasks : List (Task M)
  dlq : BoundedChannel M capacity

inductive Label (M : Type*)
  | recv (m : M)
  | close
  | acquire
  | ok (i : ℕ)
  | error (i : ℕ)
  | panic (i : ℕ)
  | wake (i : ℕ)
  | timeout (i : ℕ)
  | send (i : ℕ)
  | read
  | join

namespace State

def setStage (s : State M capacity) (i : ℕ) (t : Task M) (stage : Stage) : State M capacity :=
  { s with tasks := s.tasks.set i { t with stage := stage } }

/-- A task drops its permit when it ends. -/
def finish (s : State M capacity) (i : ℕ) (t : Task M) : State M capacity :=
  { s.setStage i t .finished with permits := s.permits + 1 }

def spawn (s : State M capacity) (m : M) : State M capacity :=
  { s with
    loop := .receiving
    permits := s.permits - 1
    tasks := s.tasks ++ [⟨m, .attempt 0⟩] }

def retry (config : JobConfig) (k : ℕ) : Stage :=
  if k < config.max_retries then .backoff k else .failed

end State

def next (config : JobConfig) (s : State M capacity) : Label M → Option (State M capacity)
  | .recv m => match s.loop with
      | .receiving => some { s with loop := .acquiring m }
      | _ => none
  | .close => match s.loop with
      | .receiving => some { s with loop := .joining }
      | _ => none
  | .acquire => match s.loop with
      | .acquiring m => if 0 < s.permits then some (s.spawn m) else none
      | _ => none
  | .ok i => s.tasks[i]?.bind (fun t => match t.stage with
      | .attempt _ => some (s.finish i t)
      | _ => none)
  | .error i => s.tasks[i]?.bind (fun t => match t.stage with
      | .attempt k => some (s.setStage i t (State.retry config k))
      | _ => none)
  | .panic i => s.tasks[i]?.bind (fun t => match t.stage with
      | .attempt _ => some (s.finish i t)
      | _ => none)
  | .wake i => s.tasks[i]?.bind (fun t => match t.stage with
      | .backoff k => some (s.setStage i t (.attempt (k + 1)))
      | _ => none)
  | .timeout i => s.tasks[i]?.bind (fun t => match t.stage with
      | .attempt _ | .backoff _ => some (s.setStage i t .failed)
      | _ => none)
  | .send i => s.tasks[i]?.bind (fun t => match t.stage with
      | .failed => some { s.finish i t with dlq := (s.dlq.trySend t.message).getD s.dlq }
      | _ => none)
  | .read => s.dlq.recv.map (fun r => { s with dlq := r.2 })
  | .join => match s.loop with
      | .joining =>
          if s.tasks.all (fun t => t.stage == .finished) then some { s with loop := .returned }
          else none
      | _ => none

def system (M : Type*) (capacity : ℕ) (config : JobConfig) :
    TransitionSystem (State M capacity) (Label M) where
  init := ⟨.receiving, config.concurrency, [], .empty⟩
  step := next config

/-- The messages received, the numbers of those whose handler returned `Ok` and of those that the
dead-letter channel took, and what was read from the channel. -/
structure Account (M : Type*) where
  received : List M
  succeeded : List ℕ
  dead : List ℕ
  read : List M

def note (m : Account M) (s : State M capacity) (a : Label M) (_ : State M capacity) : Account M :=
  match a with
  | .recv msg => { m with received := m.received ++ [msg] }
  | .ok i => { m with succeeded := m.succeeded ++ [i] }
  | .send i => if s.dlq.queue.length < capacity then { m with dead := m.dead ++ [i] } else m
  | .read => { m with read := m.read ++ s.dlq.queue.head?.toList }
  | _ => m

def observed (M : Type*) (capacity : ℕ) (config : JobConfig) :
    TransitionSystem (State M capacity × Account M) (Label M) :=
  (system M capacity config).observe ⟨[], [], [], []⟩ note

/-- How often the message with the number `i` has ended. -/
def Account.ends (m : Account M) (i : ℕ) : ℕ := m.succeeded.count i + m.dead.count i

/-- Every message has ended exactly once, and the channel was handed the dead ones in the order of
their deliveries. -/
structure Conserved (x : State M capacity × Account M) : Prop where
  once : ∀ i < x.2.received.length, x.2.ends i = 1
  delivered : x.2.dead.filterMap (fun i => x.2.received[i]?) = x.2.read ++ x.1.dlq.queue

/-- No attempt of the handler panics, and no message is offered to a full channel. -/
def Gentle (x : State M capacity × Account M) : Label M → Prop
  | .panic _ => False
  | .send _ => x.1.dlq.queue.length < capacity
  | _ => True

end Rszero.Worker
