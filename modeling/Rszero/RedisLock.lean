import Rszero.ExpiringKeys
import Rszero.TransitionSystem

/-!
# The distributed lock

The commands of a lock as Redis executes them. A script is in flight from the moment a client issues
it, and is executed then or at any time later, or never: a lock that is dropped leaves a release in
flight, and the loop that refreshes a lock has a script of its own. The clock and the TTLs count
nanoseconds, and Redis is told the seconds.
-/

namespace Rszero.RedisLock

open ExpiringKeys

abbrev ClientId := ℕ

def lockKey (resource : String) : String := "rszero:lock:" ++ resource

/-- `ttl.as_secs()` -/
def asSecs (ttl : ℕ) : ℕ := ttl / 1000000000

def nanos (secs : ℕ) : ℕ := secs * 1000000000

/-- `ttl.as_secs() as i64`, where Redis takes it for an expiry: it counts the milliseconds in an
`i64`. -/
def expiration (ttl : ℕ) : Option ℕ :=
  if 0 < asSecs ttl ∧ asSecs ttl ≤ 9223372036854775 then some (asSecs ttl) else none

inductive Script
  | release (key value : String)
  | refresh (key value : String) (secs : ℕ)
  deriving DecidableEq

def Script.key : Script → String
  | .release key _ | .refresh key _ _ => key

def Script.value : Script → String
  | .release _ value | .refresh _ value _ => value

/-- The store after the script, when the script answers `1`. -/
def Script.eval (now : ℕ) (store : Store String String) : Script → Option (Store String String)
  | .release key value => deleteIfOwned store now key value
  | .refresh key value secs => extendIfOwned store now key value (nanos secs)

/-- `client` is who has the connection. -/
structure DistributedLock where
  client : ClientId
  resource : String
  value : String
  deriving DecidableEq

def DistributedLock.release (lock : DistributedLock) : Script :=
  .release (lockKey lock.resource) lock.value

def DistributedLock.refresh (lock : DistributedLock) (ttl : ℕ) : Script :=
  .refresh (lockKey lock.resource) lock.value (asSecs ttl)

/-- The store after `SET key value NX EX ttl`, when the key is set. -/
def setLock (store : Store String String) (now : ℕ) (resource value : String) (ttl : ℕ) :
    Option (Store String String) :=
  (expiration ttl).bind (fun secs => setIfAbsent store now (lockKey resource) value (nanos secs))

/-- What becomes of a command: it is executed and answered, or executed and the answer is lost, or
not executed. -/
inductive Answer
  | answered
  | lost
  | failed
  deriving DecidableEq

/-- `repeats` is for the script of a loop that goes on when the answer is `1`. -/
structure Issued where
  script : Script
  repeats : Bool
  deriving DecidableEq

/-- `tasks` are the refresh loops that wait for their tick. -/
structure State where
  now : ℕ
  store : Store String String
  locks : List DistributedLock
  tasks : List Script
  inFlight : List Issued

inductive Label
  | elapse (d : ℕ)
  | evict (key : String)
  | tryAcquire (c : ClientId) (resource value : String) (ttl : ℕ) (answer : Answer)
  | release (lock : DistributedLock)
  | refresh (lock : DistributedLock) (ttl : ℕ)
  | startRefresh (lock : DistributedLock) (ttl : ℕ)
  | tick (script : Script)
  | abort (script : Script)
  | drop (lock : DistributedLock)
  | execute (issued : Issued) (answer : Answer)

namespace State

def issue (s : State) (script : Script) (repeats : Bool) : State :=
  { s with inFlight := s.inFlight ++ [⟨script, repeats⟩] }

def acquired (s : State) (store : Store String String) (lock : DistributedLock) :
    Answer → State
  | .answered => { s with store := store, locks := s.locks ++ [lock] }
  | .lost => { s with store := store }
  | .failed => s

def executed (s : State) (issued : Issued) (answer : Answer) : State :=
  match answer, issued.script.eval s.now s.store with
  | .answered, some store =>
      { s with
        store := store
        tasks := if issued.repeats then s.tasks ++ [issued.script] else s.tasks
        inFlight := s.inFlight.erase issued }
  | .lost, some store => { s with store := store, inFlight := s.inFlight.erase issued }
  | _, _ => { s with inFlight := s.inFlight.erase issued }

def next (s : State) : Label → Option State
  | .elapse d => some { s with now := s.now + d }
  | .evict key => some { s with store := ExpiringKeys.evict s.store s.now key }
  | .tryAcquire c resource value ttl answer =>
      match setLock s.store s.now resource value ttl with
      | some store => some (s.acquired store ⟨c, resource, value⟩ answer)
      | none => some s
  | .release lock => if lock ∈ s.locks then some (s.issue lock.release false) else none
  | .refresh lock ttl => if lock ∈ s.locks then some (s.issue (lock.refresh ttl) false) else none
  | .startRefresh lock ttl =>
      if lock ∈ s.locks then some { s with tasks := s.tasks ++ [lock.refresh ttl] } else none
  | .tick script =>
      if script ∈ s.tasks then some ({ s with tasks := s.tasks.erase script }.issue script true)
      else none
  | .abort script =>
      if script ∈ s.tasks then some { s with tasks := s.tasks.erase script }
      else if ⟨script, true⟩ ∈ s.inFlight then
        some ({ s with inFlight := s.inFlight.erase ⟨script, true⟩ }.issue script false)
      else none
  | .drop lock =>
      if lock ∈ s.locks then
        some ({ s with locks := s.locks.erase lock }.issue lock.release false)
      else none
  | .execute issued answer =>
      if issued ∈ s.inFlight then some (s.executed issued answer) else none

end State

def system : TransitionSystem State Label where
  init := ⟨0, fun _ => none, [], [], []⟩
  step := State.next

theorem owned_of_eval {script : Script} {store store' : Store String String} {now : ℕ}
    (h : script.eval now store = some store') : owned store now script.key script.value := by
  cases script with
  | release key value => exact owned_of_deleteIfOwned h
  | refresh key value secs => exact owned_of_extendIfOwned h

/-- The script of another token leaves the key alone. -/
theorem live_of_eval {script : Script} {store store' : Store String String} {now expiresAt : ℕ}
    {key value : String} (h : live store now key = some ⟨value, expiresAt⟩)
    (hvalue : script.value ≠ value) (he : script.eval now store = some store') :
    live store' now key = some ⟨value, expiresAt⟩ := by
  cases script with
  | release key' value' => exact live_deleteIfOwned h hvalue he
  | refresh key' value' secs => exact live_extendIfOwned h hvalue he

inductive Effect (s : State) : Label → Store String String → ℕ → Prop
  | elapse (d : ℕ) : Effect s (.elapse d) s.store (s.now + d)
  | evict (key : String) : Effect s (.evict key) (evict s.store s.now key) s.now
  | acquired {c : ClientId} {resource value : String} {ttl : ℕ} {answer : Answer}
      {store : Store String String} (hanswer : answer ≠ .failed)
      (hset : setLock s.store s.now resource value ttl = some store) :
      Effect s (.tryAcquire c resource value ttl answer) store s.now
  | refused {c : ClientId} {resource value : String} {ttl : ℕ} {answer : Answer}
      (h : ¬ (answer ≠ .failed ∧ (setLock s.store s.now resource value ttl).isSome)) :
      Effect s (.tryAcquire c resource value ttl answer) s.store s.now
  | evaluated {issued : Issued} {answer : Answer} {store : Store String String}
      (hanswer : answer ≠ .failed) (heval : issued.script.eval s.now s.store = some store) :
      Effect s (.execute issued answer) store s.now
  | unanswered {issued : Issued} {answer : Answer}
      (h : ¬ (answer ≠ .failed ∧ (issued.script.eval s.now s.store).isSome)) :
      Effect s (.execute issued answer) s.store s.now
  | release (lock : DistributedLock) : Effect s (.release lock) s.store s.now
  | refresh (lock : DistributedLock) (ttl : ℕ) : Effect s (.refresh lock ttl) s.store s.now
  | startRefresh (lock : DistributedLock) (ttl : ℕ) :
      Effect s (.startRefresh lock ttl) s.store s.now
  | tick (script : Script) : Effect s (.tick script) s.store s.now
  | abort (script : Script) : Effect s (.abort script) s.store s.now
  | drop (lock : DistributedLock) : Effect s (.drop lock) s.store s.now

theorem step_effect {s s' : State} {a : Label} (h : system.step s a = some s') :
    Effect s a s'.store s'.now := by
  change State.next s a = some s' at h
  cases a with
  | elapse d =>
      cases h
      exact .elapse d
  | evict key =>
      cases h
      exact .evict key
  | tryAcquire c resource value ttl answer =>
      simp only [State.next] at h
      cases hset : setLock s.store s.now resource value ttl with
      | none =>
          rw [hset] at h
          cases h
          exact .refused (by simp [hset])
      | some store =>
          rw [hset] at h
          cases h
          cases answer with
          | answered | lost => exact .acquired nofun hset
          | failed => exact .refused (fun hc => hc.1 rfl)
  | release lock =>
      obtain ⟨-, h⟩ := Option.ite_none_right_eq_some.1 h
      cases h
      exact .release lock
  | refresh lock ttl =>
      obtain ⟨-, h⟩ := Option.ite_none_right_eq_some.1 h
      cases h
      exact .refresh lock ttl
  | startRefresh lock ttl =>
      obtain ⟨-, h⟩ := Option.ite_none_right_eq_some.1 h
      cases h
      exact .startRefresh lock ttl
  | tick script =>
      obtain ⟨-, h⟩ := Option.ite_none_right_eq_some.1 h
      cases h
      exact .tick script
  | abort script =>
      simp only [State.next] at h
      split_ifs at h <;> cases h <;> exact .abort script
  | drop lock =>
      obtain ⟨-, h⟩ := Option.ite_none_right_eq_some.1 h
      cases h
      exact .drop lock
  | execute issued answer =>
      obtain ⟨-, h⟩ := Option.ite_none_right_eq_some.1 h
      cases h
      simp only [State.executed]
      cases heval : issued.script.eval s.now s.store with
      | none => cases answer <;> exact .unanswered (by simp [heval])
      | some store =>
          cases answer with
          | answered | lost => exact .evaluated nofun heval
          | failed => exact .unanswered (fun hc => hc.1 rfl)

end Rszero.RedisLock
