import Mathlib.Data.Int.Notation
import Rszero.AsyncBlock
import Rszero.Error
import Rszero.RedisLock

/-!
# Calls that hold a lock

`with_lock`, `with_lock_auto_refresh` and `with_redlock` from their acquisition to their end. The
guard of the first two spawns a release when it is dropped, where a task can be spawned; the guard
of the third has no drop of its own. An error of Redis is known by its text.
-/

namespace Rszero.RedisLock

open AsyncBlock

inductive RedisValue
  | null
  | integer (n : ℤ)
  | string (s : String)
  | other

inductive Expiration
  | ex (secs : ℕ)
  | px (millis : ℕ)

inductive Command
  | set (key value : String) (expiration : Expiration)
  | eval (script : Script)
  | spawnRefresh (script : Script) (refresh_interval : ℕ)
  | abortRefresh

/-- The client of a `RedlockManager` converts what Redis answers. -/
inductive Await
  | set
  | eval
  | redlockSet
  | redlockEval
  | body
  | refreshTask

abbrev Answers (T : Type) : Await → Type
  | .set | .eval => Except String RedisValue
  | .redlockSet => Except String (Option String)
  | .redlockEval => Except String ℤ
  | .body => T
  | .refreshTask => Unit

abbrev Block (T A : Type) := AsyncBlock (Answers T) Command A

def cacheError (message : String) : RszeroError := .cache message none

variable {T A : Type}

/-- `drop` of a `DistributedLock` -/
def DistributedLock.dropGlue (lock : DistributedLock) (spawns : Bool) : List Command :=
  if spawns then [.eval lock.release] else []

/-- Whether `try_acquire` takes the answer for an acquisition. -/
def RedisValue.acquired : RedisValue → Bool
  | .integer n => n = 1
  | .string _ => true
  | _ => false

/-- The rest of a function after its `try_acquire`, which draws the token `value`. -/
def tryAcquire (client : ClientId) (resource value : String) (ttl : ℕ)
    (next : Except RszeroError (Option DistributedLock) → Block T A) : Block T A :=
  .issue (.set (lockKey resource) value (.ex (asSecs ttl)))
    (.await .set (fun result =>
      next (match result with
        | .ok reply => .ok (if reply.acquired then some ⟨client, resource, value⟩ else none)
        | .error e => .error (cacheError s!"lock acquire failed: {e}"))))

/-- The rest of a function after a `release`. -/
def DistributedLock.releasing (lock : DistributedLock)
    (next : Except RszeroError Bool → Block T A) : Block T A :=
  .issue (.eval lock.release)
    (.await .eval (fun result =>
      next (match result with
        | .ok (.integer 1) => .ok true
        | .ok _ => .ok false
        | .error e => .error (cacheError s!"lock release failed: {e}"))))

/-- `try_acquire(..).await?.ok_or_else(..)?`, and the rest of the function. -/
def locked (client : ClientId) (resource value : String) (ttl : ℕ)
    (rest : DistributedLock → Block T (Except RszeroError T)) : Block T (Except RszeroError T) :=
  tryAcquire client resource value ttl (fun acquired =>
    match acquired with
    | .ok (some lock) => .guarded lock.dropGlue (rest lock)
    | .ok none => .ready (.error (cacheError s!"failed to acquire lock: {resource}"))
    | .error e => .ready (.error e))

def DistributedLock.releaseAndReturn (lock : DistributedLock) (result : T) :
    Block T (Except RszeroError T) :=
  lock.releasing (fun released =>
    match released with
    | .ok _ => .ready (.ok result)
    | .error e => .ready (.error e))

def withLock (client : ClientId) (resource value : String) (ttl : ℕ) :
    Block T (Except RszeroError T) :=
  locked client resource value ttl (fun lock =>
    .await .body (fun result => lock.releaseAndReturn result))

def withLockAutoRefresh (client : ClientId) (resource value : String)
    (ttl refresh_interval : ℕ) : Block T (Except RszeroError T) :=
  locked client resource value ttl (fun lock =>
    .issue (.spawnRefresh (lock.refresh ttl) refresh_interval)
      (.await .body (fun result =>
        .issue .abortRefresh (.await .refreshTask (fun _ => lock.releaseAndReturn result)))))

structure RedlockGuard where
  resource : String
  value : String
  validity_time : ℕ

/-- The rest of a function after the `acquire` of a `RedlockManager`. -/
def redlockAcquire (resource value : String) (ttl_ms : ℕ)
    (next : Except RszeroError (Option RedlockGuard) → Block T A) : Block T A :=
  .issue (.set resource value (.px ttl_ms))
    (.await .redlockSet (fun result =>
      next (match result with
        | .ok (some _) => .ok (some ⟨resource, value, ttl_ms⟩)
        | .ok none => .ok none
        | .error e => .error (cacheError s!"redlock acquire failed: {e}"))))

def RedlockGuard.release (guard : RedlockGuard) : Script := .release guard.resource guard.value

def withRedlock (resource value : String) (ttl_ms : ℕ) : Block T (Except RszeroError T) :=
  redlockAcquire resource value ttl_ms (fun acquired =>
    match acquired with
    | .ok (some guard) =>
        .await .body (fun result =>
          .issue (.eval guard.release) (.await .redlockEval (fun _ => .ready (.ok result))))
    | .ok none => .ready (.error (cacheError s!"failed to acquire redlock: {resource}"))
    | .error e => .ready (.error e))

inductive LockFunction
  | withLock
  | withLockAutoRefresh (refresh_interval : ℕ)
  | withRedlock

namespace LockFunction

def key (resource : String) : LockFunction → String
  | .withLock | .withLockAutoRefresh _ => lockKey resource
  | .withRedlock => resource

/-- A call of the function, with its TTL in the unit the function takes. -/
def block (client : ClientId) (resource value : String) (ttl : ℕ) :
    LockFunction → Block T (Except RszeroError T)
  | .withLock => RedisLock.withLock client resource value ttl
  | .withLockAutoRefresh refresh_interval =>
      RedisLock.withLockAutoRefresh client resource value ttl refresh_interval
  | .withRedlock => RedisLock.withRedlock resource value ttl

def Acquires (env : Environment (Answers T)) : LockFunction → Prop
  | .withLock | .withLockAutoRefresh _ => ∃ reply, env 0 .set = .value (.ok reply) ∧ reply.acquired
  | .withRedlock => ∃ s, env 0 .redlockSet = .value (.ok (some s))

/-- `f` returns, and so does the refresh task that has been aborted. -/
def Returns (env : Environment (Answers T)) : LockFunction → Prop
  | .withLock | .withRedlock => ∃ result, env 1 .body = .value result
  | .withLockAutoRefresh _ =>
      (∃ result, env 1 .body = .value result) ∧ env 2 .refreshTask = .value ()

/-- The call has a guard with a drop, and is not dropped where no task can be spawned. -/
def Drops (env : Environment (Answers T)) : LockFunction → Prop
  | .withLock => env 1 .body ≠ .dropped false
  | .withLockAutoRefresh _ => env 1 .body ≠ .dropped false ∧
      ∀ result, env 1 .body = .value result → env 2 .refreshTask ≠ .dropped false
  | .withRedlock => False

end LockFunction

/-- A release of the key with the token is issued, and no other script. -/
def Releases (commands : List Command) (key value : String) : Prop :=
  .eval (.release key value) ∈ commands ∧
    ∀ script, .eval script ∈ commands → script = .release key value

section Issued

variable {env : Environment (Answers T)} {client : ClientId} {resource value : String} {ttl : ℕ}

/-- The only script that may be issued is the release of the key with the token. -/
def OnlyRelease (key value : String) (command : Command) : Prop :=
  ∀ script, command = .eval script → script = .release key value

theorem onlyRelease_release (key value : String) :
    OnlyRelease key value (.eval (.release key value)) := by
  rintro _ ⟨⟩
  rfl

theorem only_releaseAndReturn {p : Command → Prop} {lock : DistributedLock}
    (hrelease : p (.eval lock.release)) (result : T) : (lock.releaseAndReturn result).Only p := by
  refine ⟨hrelease, fun ans => ?_⟩
  dsimp only
  split <;> trivial

/-- Besides its rest, a call with a lock issues the `SET` and the release of the guard. -/
theorem only_locked {p : Command → Prop}
    {rest : DistributedLock → Block T (Except RszeroError T)}
    (hset : p (.set (lockKey resource) value (.ex (asSecs ttl))))
    (hrelease : p (.eval (.release (lockKey resource) value)))
    (h : (rest ⟨client, resource, value⟩).Only p) :
    (locked client resource value ttl rest).Only p := by
  refine ⟨hset, fun ans => ?_⟩
  cases ans with
  | error e => trivial
  | ok reply =>
      dsimp only
      split_ifs
      · refine ⟨fun spawns command hcommand => ?_, h⟩
        unfold DistributedLock.dropGlue at hcommand
        split_ifs at hcommand
        · rwa [List.mem_singleton.1 hcommand]
        · cases hcommand
      · trivial

theorem only_block (f : LockFunction) :
    (f.block client resource value ttl : Block T _).Only (OnlyRelease (f.key resource) value) := by
  have hrelease := onlyRelease_release (f.key resource) value
  cases f with
  | withLock => exact only_locked nofun hrelease (only_releaseAndReturn hrelease)
  | withLockAutoRefresh refresh_interval =>
      exact only_locked nofun hrelease
        ⟨nofun, fun result => ⟨nofun, fun _ => only_releaseAndReturn hrelease result⟩⟩
  | withRedlock =>
      refine ⟨nofun, fun ans => ?_⟩
      match ans with
      | .error e => trivial
      | .ok none => trivial
      | .ok (some reply) => exact fun result => ⟨hrelease, fun _ => trivial⟩

theorem mem_dropGlue {lock : DistributedLock} {spawns : Bool} :
    .eval lock.release ∈ lock.dropGlue spawns ↔ spawns := by
  cases spawns <;> simp [DistributedLock.dropGlue]

/-- A call that has the lock issues a release in its rest or, where it can spawn, when the guard is
dropped. -/
theorem mem_run_locked {rest : DistributedLock → Block T (Except RszeroError T)}
    {reply : RedisValue} (h : env 0 .set = .value (.ok reply)) (hreply : reply.acquired) :
    .eval (.release (lockKey resource) value) ∈
        (run env 0 (locked client resource value ttl rest)).1 ↔
      .eval (.release (lockKey resource) value) ∈
          (run env 1 (rest ⟨client, resource, value⟩)).1 ∨
        (run env 1 (rest ⟨client, resource, value⟩)).2.spawns := by
  have hne : Command.eval (.release (lockKey resource) value) ≠
      .set (lockKey resource) value (.ex (asSecs ttl)) := nofun
  rw [locked, tryAcquire, mem_run_issue_of_ne hne, run_await_value h]
  dsimp only
  rw [if_pos hreply, mem_run_guarded]
  exact or_congr_right mem_dropGlue

theorem mem_releaseAndReturn (lock : DistributedLock) (result : T) (n : ℕ) :
    .eval lock.release ∈ (run env n (lock.releaseAndReturn result)).1 := List.mem_cons_self

theorem mem_withLock (h : LockFunction.withLock.Acquires env) :
    .eval (.release (lockKey resource) value) ∈
        (run env 0 (withLock client resource value ttl)).1 ↔
      LockFunction.withLock.Returns env ∨ LockFunction.withLock.Drops env := by
  obtain ⟨reply, hset, hreply⟩ := h
  rw [withLock, mem_run_locked hset hreply, mem_or_spawns_await, LockFunction.Returns,
    LockFunction.Drops]
  constructor
  · exact fun hdrops => .inr hdrops.1
  · intro hcases
    refine ⟨?_, fun result _ => .inl (mem_releaseAndReturn _ result 2)⟩
    rcases hcases with ⟨result, hbody⟩ | hdrops
    · rw [hbody]
      nofun
    · exact hdrops

theorem mem_withLockAutoRefresh {refresh_interval : ℕ}
    (h : (LockFunction.withLockAutoRefresh refresh_interval).Acquires env) :
    .eval (.release (lockKey resource) value) ∈
        (run env 0 (withLockAutoRefresh client resource value ttl refresh_interval)).1 ↔
      (LockFunction.withLockAutoRefresh refresh_interval).Returns env ∨
        (LockFunction.withLockAutoRefresh refresh_interval).Drops env := by
  obtain ⟨reply, hset, hreply⟩ := h
  have hspawn : Command.eval (.release (lockKey resource) value) ≠
      .spawnRefresh (DistributedLock.refresh ⟨client, resource, value⟩ ttl) refresh_interval :=
    nofun
  have habort : Command.eval (.release (lockKey resource) value) ≠ .abortRefresh := nofun
  rw [withLockAutoRefresh, mem_run_locked hset hreply, LockFunction.Returns, LockFunction.Drops,
    mem_run_issue_of_ne hspawn, exit_run_issue, mem_or_spawns_await]
  simp only [mem_run_issue_of_ne habort, exit_run_issue, mem_or_spawns_await]
  constructor
  · exact fun hdrops => .inr ⟨hdrops.1, fun result hbody => (hdrops.2 result hbody).1⟩
  · intro hcases
    have hdrops : env 1 .body ≠ .dropped false ∧
        ∀ result, env 1 .body = .value result → env 2 .refreshTask ≠ .dropped false := by
      rcases hcases with ⟨⟨result, hbody⟩, htask⟩ | hdrops
      · rw [hbody, htask]
        exact ⟨nofun, nofun⟩
      · exact hdrops
    exact ⟨hdrops.1, fun result hbody => ⟨hdrops.2 result hbody,
      fun _ _ => .inl (mem_releaseAndReturn _ result 3)⟩⟩

theorem mem_withRedlock (h : LockFunction.withRedlock.Acquires env) :
    .eval (.release resource value) ∈ (run env 0 (withRedlock resource value ttl)).1 ↔
      LockFunction.withRedlock.Returns env ∨ LockFunction.withRedlock.Drops env := by
  obtain ⟨s, hset⟩ := h
  have hne : Command.eval (.release resource value) ≠ .set resource value (.px ttl) := nofun
  rw [withRedlock, redlockAcquire, mem_run_issue_of_ne hne, run_await_value hset,
    LockFunction.Returns, LockFunction.Drops, or_false]
  dsimp only
  rw [mem_run_await]
  exact exists_congr (fun result => and_iff_left List.mem_cons_self)

end Issued

/-- A call that gets the lock issues a release of exactly that lock if and only if it comes to its
release, or its guard has a drop and is not dropped where no task can be spawned. -/
theorem releases_iff {env : Environment (Answers T)} (f : LockFunction) (client : ClientId)
    (resource value : String) (ttl : ℕ) (h : f.Acquires env) :
    Releases (run env 0 (f.block client resource value ttl)).1 (f.key resource) value ↔
      f.Returns env ∨ f.Drops env := by
  have honly : (f.block client resource value ttl : Block T _).Only
      (OnlyRelease (f.key resource) value) := only_block f
  have hscripts : ∀ script,
      .eval script ∈ (run env 0 (f.block client resource value ttl)).1 →
        script = .release (f.key resource) value :=
    fun script hmem => honly.run env 0 _ hmem script rfl
  rw [Releases, and_iff_left hscripts]
  cases f with
  | withLock => exact mem_withLock h
  | withLockAutoRefresh refresh_interval => exact mem_withLockAutoRefresh h
  | withRedlock => exact mem_withRedlock h

/-- Redis grants the lock, and the closure panics. -/
def panicking : Environment (Answers ℕ)
  | _, .set => .value (.ok (.string "OK"))
  | _, .redlockSet => .value (.ok (some "OK"))
  | _, _ => .panics

theorem releases_iff_panicking :
    Releases (run panicking 0 (LockFunction.withLock.block 0 "job" "a" 5000000000)).1
      "rszero:lock:job" "a" :=
  (releases_iff .withLock 0 "job" "a" 5000000000 ⟨.string "OK", rfl, rfl⟩).2 (.inr nofun)

theorem not_releases_redlock :
    LockFunction.withRedlock.Acquires panicking ∧
      ¬ Releases (run panicking 0 (LockFunction.withRedlock.block 0 "job" "a" 5000)).1
        "job" "a" := by
  refine ⟨⟨"OK", rfl⟩, ?_⟩
  rintro ⟨hmem, -⟩
  have hissued : (run panicking 0 (LockFunction.withRedlock.block 0 "job" "a" 5000)).1 =
      [.set "job" "a" (.px 5000)] := rfl
  rw [hissued, List.mem_singleton] at hmem
  cases hmem

end Rszero.RedisLock
