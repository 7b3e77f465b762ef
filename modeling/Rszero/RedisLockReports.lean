import Rszero.RedisLockCalls

/-!
# What a call with a lock reports

An error of `with_lock`, `with_lock_auto_refresh` or `with_redlock` should mean that `f` was not
run, so that a caller may try again. The first two also return the error of their release, when `f`
has been run to its end.
-/

namespace Rszero.RedisLock

open AsyncBlock

deriving instance DecidableEq for Await

variable {T : Type}

/-- Redis answers what a call awaits, each time as it likes, and `f` ends as it likes. -/
structure Behaviour (T : Type) where
  redis : ℕ → (op : Await) → Answers T op
  f : Outcome T

def Behaviour.env (b : Behaviour T) : Environment (Answers T)
  | _, .body => b.f
  | n, .set => .value (b.redis n .set)
  | n, .eval => .value (b.redis n .eval)
  | n, .redlockSet => .value (b.redis n .redlockSet)
  | n, .redlockEval => .value (b.redis n .redlockEval)
  | n, .refreshTask => .value (b.redis n .refreshTask)

/-- An error says that `f` was not run, and the result of an `f` that was run to its end is
returned. -/
structure Honest (b : Behaviour T) (block : Block T (Except RszeroError T)) : Prop where
  error : ∀ e, (run b.env 0 block).2 = .returned (.error e) → .body ∉ awaits b.env 0 block
  ok : ∀ result, .body ∈ awaits b.env 0 block → b.f = .value result →
    (run b.env 0 block).2 = .returned (.ok result)

namespace LockFunction

def releaseError (b : Behaviour T) : LockFunction → Option String
  | .withLock => match b.redis 2 .eval with
      | .error e => some e
      | .ok _ => none
  | .withLockAutoRefresh _ => match b.redis 3 .eval with
      | .error e => some e
      | .ok _ => none
  | .withRedlock => none

/-- The call gets the lock, `f` ends, and Redis answers the release with an error. -/
def ReleaseFails (b : Behaviour T) (f : LockFunction) : Prop :=
  f.Acquires b.env ∧ (∃ result, b.f = .value result) ∧ (f.releaseError b).isSome

end LockFunction

/-- How often `f` is run by a caller that calls again, with another token, after an error. -/
def runs (block : String → Block T (Except RszeroError T)) : List (String × Behaviour T) → ℕ
  | [] => 0
  | (value, b) :: calls =>
      (if .body ∈ awaits b.env 0 (block value) then 1 else 0) +
        (match (run b.env 0 (block value)).2 with
          | .returned (.error _) => runs block calls
          | _ => 0)

section Exits

variable {b : Behaviour T} {client : ClientId} {resource value : String} {ttl : ℕ}

def settled (releaseError : Option String) (result : T) : Except RszeroError T :=
  match releaseError with
  | some e => .error (cacheError s!"lock release failed: {e}")
  | none => .ok result

def exitWith (releaseError : Option String) : Outcome T → Exit (Except RszeroError T)
  | .value result => .returned (settled releaseError result)
  | .panics => .panicked
  | .dropped spawns => .dropped spawns

/-- A call that gets its lock goes on behind the `SET`. -/
theorem run_locked {rest : DistributedLock → Block T (Except RszeroError T)} {reply : RedisValue}
    (h : b.env 0 .set = .value (.ok reply)) (hreply : reply.acquired) :
    (run b.env 0 (locked client resource value ttl rest)).2 =
        (run b.env 1 (rest ⟨client, resource, value⟩)).2 ∧
      awaits b.env 0 (locked client resource value ttl rest) =
        .set :: awaits b.env 1 (rest ⟨client, resource, value⟩) := by
  rw [locked, tryAcquire, exit_run_issue, awaits_issue, run_await_value h, awaits_await_value h]
  dsimp only
  rw [if_pos hreply]
  exact ⟨rfl, rfl⟩

/-- A call that does not get its lock ends with an error at the `SET`. -/
theorem run_locked_of_not {rest : DistributedLock → Block T (Except RszeroError T)}
    (h : ¬ LockFunction.withLock.Acquires b.env) :
    (∃ e, (run b.env 0 (locked client resource value ttl rest)).2 = .returned (.error e)) ∧
      awaits b.env 0 (locked client resource value ttl rest) = [.set] := by
  have hset : b.env 0 .set = .value (b.redis 0 .set) := rfl
  rw [locked, tryAcquire, exit_run_issue, awaits_issue, run_await_value hset,
    awaits_await_value hset]
  cases hreply : b.redis 0 .set with
  | error e => exact ⟨⟨_, rfl⟩, rfl⟩
  | ok reply =>
      have hnot : ¬ reply.acquired := fun hacquired =>
        h ⟨reply, congrArg Outcome.value hreply, hacquired⟩
      dsimp only
      rw [if_neg hnot]
      exact ⟨⟨_, rfl⟩, rfl⟩

theorem exit_releaseAndReturn (n : ℕ) (lock : DistributedLock) (result : T) :
    (run b.env n (lock.releaseAndReturn result)).2 =
      .returned (match b.redis n .eval with
        | .error e => .error (cacheError s!"lock release failed: {e}")
        | .ok _ => .ok result) := by
  have heval : b.env n .eval = .value (b.redis n .eval) := rfl
  rw [DistributedLock.releaseAndReturn, DistributedLock.releasing, exit_run_issue,
    run_await_value heval]
  cases b.redis n .eval with
  | error e => rfl
  | ok reply =>
      -- whether or not the script deleted the key
      dsimp only
      split
      · rfl
      · rename_i herror
        split at herror
        · cases herror
        · cases herror
        · rename_i herror'
          cases herror'

/-- A panic or a drop at `f` is the end of the call. -/
theorem exit_await_body {n : ℕ} {next : T → Block T (Except RszeroError T)}
    {releaseError : Option String}
    (h : ∀ result, (run b.env (n + 1) (next result)).2 =
      .returned (settled releaseError result)) :
    (run b.env n (.await .body next)).2 = exitWith releaseError b.f := by
  cases hf : b.f with
  | value result =>
      have hbody : b.env n .body = .value result := hf
      rw [run_await_value hbody]
      exact h result
  | panics =>
      have hbody : b.env n .body = .panics := hf
      rw [run_await_panics hbody]
      rfl
  | dropped spawns =>
      have hbody : b.env n .body = .dropped spawns := hf
      rw [run_await_dropped hbody]
      rfl

/-- A call that is told of its lock runs `f`, and its end is that of `f` and of its release. -/
theorem exit_block (f : LockFunction) (h : f.Acquires b.env) :
    (run b.env 0 (f.block client resource value ttl)).2 = exitWith (f.releaseError b) b.f ∧
      .body ∈ awaits b.env 0 (f.block client resource value ttl : Block T _) := by
  cases f with
  | withLock =>
      obtain ⟨reply, hset, hreply⟩ := h
      rw [LockFunction.block, withLock, (run_locked hset hreply).1, (run_locked hset hreply).2]
      refine ⟨exit_await_body (fun result => ?_), List.mem_cons_of_mem _ (mem_awaits_await _ _)⟩
      rw [exit_releaseAndReturn]
      cases hrelease : b.redis 2 .eval <;> simp only [LockFunction.releaseError, hrelease, settled]
  | withLockAutoRefresh refresh_interval =>
      obtain ⟨reply, hset, hreply⟩ := h
      rw [LockFunction.block, withLockAutoRefresh, (run_locked hset hreply).1,
        (run_locked hset hreply).2, exit_run_issue, awaits_issue]
      refine ⟨exit_await_body (fun result => ?_), List.mem_cons_of_mem _ (mem_awaits_await _ _)⟩
      have htask : b.env 2 .refreshTask = .value () := rfl
      rw [exit_run_issue, run_await_value htask, exit_releaseAndReturn]
      cases hrelease : b.redis 3 .eval <;> simp only [LockFunction.releaseError, hrelease, settled]
  | withRedlock =>
      obtain ⟨reply, hset⟩ := h
      have hrelease : b.env 2 .redlockEval = .value (b.redis 2 .redlockEval) := rfl
      rw [LockFunction.block, withRedlock, redlockAcquire, exit_run_issue, awaits_issue,
        run_await_value hset, awaits_await_value hset]
      refine ⟨exit_await_body (fun result => ?_), List.mem_cons_of_mem _ (mem_awaits_await _ _)⟩
      rw [exit_run_issue, run_await_value hrelease]
      rfl

/-- A call that is not told of its lock returns an error, and does not run `f`. -/
theorem exit_block_of_not (f : LockFunction) (h : ¬ f.Acquires b.env) :
    (∃ e, (run b.env 0 (f.block client resource value ttl)).2 = .returned (.error e)) ∧
      .body ∉ awaits b.env 0 (f.block client resource value ttl : Block T _) := by
  cases f with
  | withLock =>
      obtain ⟨herror, hawaits⟩ := run_locked_of_not h
      exact ⟨herror, by rw [LockFunction.block, withLock, hawaits]; decide⟩
  | withLockAutoRefresh refresh_interval =>
      obtain ⟨herror, hawaits⟩ := run_locked_of_not h
      exact ⟨herror, by rw [LockFunction.block, withLockAutoRefresh, hawaits]; decide⟩
  | withRedlock =>
      have hset : b.env 0 .redlockSet = .value (b.redis 0 .redlockSet) := rfl
      rw [LockFunction.block, withRedlock, redlockAcquire, exit_run_issue, awaits_issue,
        run_await_value hset, awaits_await_value hset]
      cases hreply : b.redis 0 .redlockSet with
      | error e => exact ⟨⟨_, rfl⟩, by simp [awaits]⟩
      | ok answer =>
          cases answer with
          | none => exact ⟨⟨_, rfl⟩, by simp [awaits]⟩
          | some reply => exact absurd ⟨reply, congrArg Outcome.value hreply⟩ h

end Exits

section Reports

variable {b : Behaviour T} {client : ClientId} {resource value : String} {ttl : ℕ}

theorem honest_iff (f : LockFunction) :
    Honest b (f.block client resource value ttl) ↔ ¬ f.ReleaseFails b := by
  by_cases hacquires : f.Acquires b.env
  · obtain ⟨hexit, hbody⟩ := @exit_block T b client resource value ttl f hacquires
    rw [LockFunction.ReleaseFails, and_iff_right hacquires]
    cases hf : b.f with
    | value result =>
        rw [hf, exitWith] at hexit
        cases hrelease : f.releaseError b with
        | none =>
            rw [hrelease, settled] at hexit
            refine iff_of_true ⟨fun e he => ?_, fun result' _ hf' => ?_⟩ (by simp)
            · cases hexit.symm.trans he
            · obtain rfl : result = result' := Outcome.value.inj (hf.symm.trans hf')
              exact hexit
        | some e =>
            rw [hrelease, settled] at hexit
            exact iff_of_false (fun h => h.error _ hexit hbody)
              (fun hnot => hnot ⟨⟨result, rfl⟩, rfl⟩)
    | panics | dropped spawns =>
        rw [hf, exitWith] at hexit
        refine iff_of_true ⟨fun e he => ?_, fun result _ hf' => ?_⟩ (fun h => ?_)
        · cases hexit.symm.trans he
        · cases hf.symm.trans hf'
        · obtain ⟨⟨result, hresult⟩, -⟩ := h
          cases hresult
  · obtain ⟨-, hbody⟩ := @exit_block_of_not T b client resource value ttl f hacquires
    refine iff_of_true ⟨fun _ _ => hbody, fun _ hran => absurd hran hbody⟩ (fun hfails => ?_)
    exact hacquires hfails.1

/-- After an honest report `f` is not run again. -/
theorem runs_le_one {block : String → Block T (Except RszeroError T)}
    {calls : List (String × Behaviour T)} (h : ∀ call ∈ calls, Honest call.2 (block call.1)) :
    runs block calls ≤ 1 := by
  induction calls with
  | nil => exact Nat.zero_le 1
  | cons call calls ih =>
      obtain ⟨value, b⟩ := call
      obtain ⟨hhonest, hcalls⟩ := List.forall_mem_cons.1 h
      rw [runs]
      cases hexit : (run b.env 0 (block value)).2 with
      | returned result =>
          cases result with
          | error e =>
              rw [if_neg (hhonest.error e hexit), Nat.zero_add]
              exact ih hcalls
          | ok result => split_ifs <;> simp
      | panicked | dropped spawns => split_ifs <;> simp

end Reports

/-- The report of a call is honest unless Redis answers its release with an error; and a caller that
tries again on an error runs `f` at most once if no call comes to that. -/
theorem reports_honestly_iff (f : LockFunction) (client : ClientId) (resource : String) (ttl : ℕ)
    (calls : List (String × Behaviour T)) :
    (∀ value (b : Behaviour T),
      Honest b (f.block client resource value ttl) ↔ ¬ f.ReleaseFails b) ∧
    ((∀ call ∈ calls, ¬ f.ReleaseFails call.2) →
      runs (fun value => f.block client resource value ttl) calls ≤ 1) :=
  ⟨fun _ _ => honest_iff f,
    fun h => runs_le_one (fun call hcall => (honest_iff f).2 (h call hcall))⟩

/-- Redis grants the lock and cannot be reached for the release. -/
def unreachable : Behaviour ℕ where
  redis n op := match n, op with
    | 0, .set => .ok (.string "OK")
    | _, .set | _, .eval => .error "connection lost"
    | _, .redlockSet => .ok (some "OK")
    | _, .redlockEval => .error "connection lost"
    | _, .refreshTask => ()
    | _, .body => 0
  f := .value 7

theorem reports_honestly_iff_unreachable :
    Honest unreachable (LockFunction.withRedlock.block 0 "job" "a" 5000) ∧
      runs (fun value => LockFunction.withRedlock.block 0 "job" value 5000)
        [("a", unreachable), ("b", unreachable)] ≤ 1 := by
  have hreports := reports_honestly_iff .withRedlock 0 "job" 5000
    [("a", unreachable), ("b", unreachable)]
  exact ⟨(hreports.1 "a" unreachable).2 (fun h => nomatch h.2.2),
    hreports.2 (fun _ _ h => nomatch h.2.2)⟩

/-- The result of `f` is lost, and a second call runs `f` once more. -/
theorem not_honest_unreachable :
    (run unreachable.env 0 (LockFunction.withLock.block 0 "job" "a" 5000000000)).2 =
        .returned (.error (cacheError "lock release failed: connection lost")) ∧
      ¬ Honest unreachable (LockFunction.withLock.block 0 "job" "a" 5000000000) ∧
      ¬ Honest unreachable
        ((LockFunction.withLockAutoRefresh 1000000000).block 0 "job" "a" 5000000000) ∧
      runs (fun value => LockFunction.withLock.block 0 "job" value 5000000000)
        [("a", unreachable), ("b", unreachable)] = 2 := by
  have hacquires : LockFunction.withLock.Acquires unreachable.env := ⟨.string "OK", rfl, rfl⟩
  refine ⟨rfl, ?_, ?_, rfl⟩
  · rw [honest_iff, not_not]
    exact ⟨hacquires, ⟨7, rfl⟩, rfl⟩
  · rw [honest_iff, not_not]
    exact ⟨hacquires, ⟨7, rfl⟩, rfl⟩

end Rszero.RedisLock
