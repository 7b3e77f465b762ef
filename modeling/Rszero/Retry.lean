import Rszero.CallProgram
import Rszero.Discovery
import Rszero.Error

/-!
# The retry loops

`with_retry`, `execute_with_retry` and the loop of `RpcClient::call` as programs that call the
operation and sleep. They are one loop with a meaning of its own for what an attempt answers, and
an end of its own for when no attempt has been made. `RetryLaw` says what such a loop does with a
sequence of answers. The length of a delay is left open, but it is computed without a panic: where
an exponential delay overflows, the loop ends at that attempt.
-/

namespace Rszero.Retry

open Discovery

/-- `A` is what the operation is called with. -/
inductive RetryCall (A D : Type)
  | attempt (addr : A)
  | sleep (delay : D)

variable {A D R E T : Type}

abbrev RetryCall.Answer (R : Type) : RetryCall A D → Type
  | .attempt _ => R
  | .sleep _ => Unit

abbrev Program (A D R α : Type) := CallProgram (RetryCall.Answer (A := A) (D := D) R) α

abbrev Calls (A D R : Type) := CallProgram.Calls (RetryCall.Answer (A := A) (D := D) R)

/-- The loop over the attempts, with `last_error`. -/
def retryLoop (settle : R → Except E T) (exhausted : Program A D R (Except E T)) (max_retries : ℕ)
    (delay : ℕ → D) (addr : A) (last_error : Option E) : List ℕ → Program A D R (Except E T)
  | [] =>
      match last_error with
      | some e => .done (.error e)
      | none => exhausted
  | attempt :: attempts => .call (.attempt addr) fun answer =>
      match settle answer with
      | .ok value => .done (.ok value)
      | .error e =>
          if attempt < max_retries then
            .call (.sleep (delay attempt)) fun () =>
              retryLoop settle exhausted max_retries delay addr (some e) attempts
          else retryLoop settle exhausted max_retries delay addr (some e) attempts

/-- `0..=max_retries` -/
def attempts (max_retries : UInt32) : List ℕ := List.range' 0 (max_retries.toNat + 1)

def withRetry (max_retries : UInt32) (delay : ℕ → D) :
    Program Unit D (Except E T) (Except E T) :=
  retryLoop id .panic max_retries.toNat delay () none (attempts max_retries)

def executeWithRetry (max_retries : UInt32) (delay : ℕ → D) :
    Program Unit D (Except RszeroError Unit) (Except RszeroError Unit) :=
  retryLoop id (.done (.error (.internal "all retries exhausted" none))) max_retries.toNat delay ()
    none (attempts max_retries)

/-- An attempt answers nothing when it is timed out. -/
def settleTimeout : Option (Except RszeroError T) → Except RszeroError T
  | some result => result
  | none => .error (.rpc "timeout" none)

/-- `RpcClient::call` after `discover_instance`. -/
def call (discovered : Except RszeroError (Option ServiceInstance)) (service : String)
    (max_retries : UInt32) (delay : ℕ → D) :
    Program String D (Option (Except RszeroError T)) (Except RszeroError T) :=
  match discovered with
  | .error e => .done (.error e)
  | .ok none =>
      .done (.error (.discovery s!"no instance found for service: {service}" none))
  | .ok (some instance_) =>
      retryLoop settleTimeout (.done (.error (.rpc "all retries exhausted" none)))
        max_retries.toNat delay instance_.addr none (attempts max_retries)

section Law

variable (settle : R → Except E T) (outcomes : ℕ → R) (max_retries : ℕ) (delay : ℕ → D) (addr : A)

def attemptsMade : Calls A D R → ℕ
  | [] => 0
  | ⟨.attempt _, _⟩ :: past => attemptsMade past + 1
  | ⟨.sleep _, _⟩ :: past => attemptsMade past

def answering : CallProgram.Environment (RetryCall.Answer (A := A) (D := D) R)
  | past, .attempt _ => outcomes (attemptsMade past)
  | _, .sleep _ => ()

/-- The attempts from `k` on, `n` more than one, with a sleep between each two. -/
def spaced (k : ℕ) : ℕ → Calls A D R
  | 0 => [⟨.attempt addr, outcomes k⟩]
  | n + 1 => ⟨.attempt addr, outcomes k⟩ :: ⟨.sleep (delay k), ()⟩ :: spaced (k + 1) n

def Fails (k : ℕ) : Prop := ∃ e, settle (outcomes k) = .error e

def FirstSuccess (i : ℕ) : Prop :=
  (∃ value, settle (outcomes i) = .ok value) ∧ ∀ j < i, Fails settle outcomes j

/-- What a retry loop calls and returns. -/
structure RetryLaw (r : Calls A D R × Option (Except E T)) : Prop where
  success : ∀ i, FirstSuccess settle outcomes i → i ≤ max_retries →
    r = (spaced outcomes delay addr 0 i, some (settle (outcomes i)))
  failure : (∀ j ≤ max_retries, Fails settle outcomes j) →
    r = (spaced outcomes delay addr 0 max_retries, some (settle (outcomes max_retries)))
  count : ∀ i, FirstSuccess settle outcomes i → attemptsMade r.1 = min (i + 1) (max_retries + 1)

end Law

section Loop

variable {settle : R → Except E T} {exhausted : Program A D R (Except E T)} {outcomes : ℕ → R}
  {max_retries : ℕ} {delay : ℕ → D} {addr : A}

theorem attemptsMade_append (past later : Calls A D R) :
    attemptsMade (past ++ later) = attemptsMade past + attemptsMade later := by
  induction past with
  | nil => exact (Nat.zero_add _).symm
  | cons c past ih =>
      obtain ⟨op, answer⟩ := c
      cases op with
      | attempt addr =>
          change attemptsMade (past ++ later) + 1 = attemptsMade past + 1 + attemptsMade later
          omega
      | sleep delay => exact ih

theorem attemptsMade_spaced (k n : ℕ) :
    attemptsMade (spaced outcomes delay addr k n) = n + 1 := by
  induction n generalizing k with
  | zero => rfl
  | succ n ih => exact congrArg (· + 1) (ih (k + 1))

theorem answering_attempt {past : Calls A D R} {k : ℕ} (hpast : attemptsMade past = k) :
    answering outcomes past (.attempt addr) = outcomes k := congrArg outcomes hpast

/-- The loop from attempt `k` on makes `m` attempts that fail, and one that ends it: it succeeds,
or it is the last. -/
theorem run_retryLoop {k m n : ℕ} (hk : k + n = max_retries) (hm : m ≤ n)
    (hfail : ∀ j < m, Fails settle outcomes (k + j))
    (hend : m = n ∨ ∃ value, settle (outcomes (k + m)) = .ok value) (past : Calls A D R)
    (hpast : attemptsMade past = k) (last_error : Option E) :
    CallProgram.run (answering outcomes) past
        (retryLoop settle exhausted max_retries delay addr last_error (List.range' k (n + 1))) =
      (past ++ spaced outcomes delay addr k m, some (settle (outcomes (k + m)))) := by
  induction n generalizing k m past last_error with
  | zero =>
      obtain rfl : m = 0 := by omega
      have hlast : ¬ k < max_retries := by omega
      rw [List.range'_succ, retryLoop, CallProgram.run, answering_attempt hpast]
      cases hk' : settle (outcomes k) with
      | ok value => rw [CallProgram.run, spaced]
      | error e =>
          simp only [if_neg hlast, List.range'_zero, retryLoop, CallProgram.run]
          rw [spaced]
  | succ n ih =>
      rw [List.range'_succ, retryLoop, CallProgram.run, answering_attempt hpast]
      cases m with
      | zero =>
          obtain ⟨value, hvalue⟩ := hend.resolve_left (by omega)
          rw [Nat.add_zero] at hvalue
          rw [hvalue, CallProgram.run, spaced, Nat.add_zero, hvalue]
      | succ m =>
          have hshift (j : ℕ) : k + 1 + j = k + (j + 1) := by omega
          obtain ⟨e, he⟩ := hfail 0 (Nat.succ_pos m)
          rw [Nat.add_zero] at he
          have hnext : k < max_retries := by omega
          have hmade : attemptsMade (past ++ [⟨.attempt addr, outcomes k⟩] ++
              [⟨.sleep (delay k), ()⟩]) = k + 1 := by
            rw [attemptsMade_append, attemptsMade_append, hpast]
            rfl
          have hfail' (j : ℕ) (hj : j < m) : Fails settle outcomes (k + 1 + j) :=
            hshift j ▸ hfail (j + 1) (by omega)
          have hend' : m = n ∨ ∃ value, settle (outcomes (k + 1 + m)) = .ok value := by
            rw [hshift]
            exact hend.imp_left Nat.succ.inj
          have hrest := ih (by omega) (by omega) hfail' hend' _ hmade (some e)
          rw [hshift] at hrest
          have hspaced : spaced outcomes delay addr k (m + 1) = [⟨.attempt addr, outcomes k⟩] ++
            [⟨.sleep (delay k), ()⟩] ++ spaced outcomes delay addr (k + 1) m := rfl
          simp only [he, if_pos hnext, CallProgram.run]
          rw [hspaced, ← List.append_assoc, ← List.append_assoc]
          exact hrest

/-- A retry loop follows the law, whatever it would do after no attempt at all. -/
theorem retryLoop_follows_law :
    RetryLaw settle outcomes max_retries delay addr
      (CallProgram.run (answering outcomes) []
        (retryLoop settle exhausted max_retries delay addr none
          (List.range' 0 (max_retries + 1)))) := by
  have hrun {m : ℕ} (hm : m ≤ max_retries) (hfail : ∀ j < m, Fails settle outcomes j)
      (hend : m = max_retries ∨ ∃ value, settle (outcomes m) = .ok value) :
      CallProgram.run (answering outcomes) []
          (retryLoop settle exhausted max_retries delay addr none
            (List.range' 0 (max_retries + 1))) =
        (spaced outcomes delay addr 0 m, some (settle (outcomes m))) := by
    have hfail' (j : ℕ) (hj : j < m) : Fails settle outcomes (0 + j) :=
      (Nat.zero_add j).symm ▸ hfail j hj
    have hend' : m = max_retries ∨ ∃ value, settle (outcomes (0 + m)) = .ok value :=
      (Nat.zero_add m).symm ▸ hend
    rw [run_retryLoop (Nat.zero_add max_retries) hm hfail' hend' [] rfl none, Nat.zero_add,
      List.nil_append]
  have hall (hfails : ∀ j ≤ max_retries, Fails settle outcomes j) :=
    hrun le_rfl (fun j hj => hfails j hj.le) (.inl rfl)
  refine ⟨fun i hi hle => hrun hle hi.2 (.inr hi.1), hall, fun i hi => ?_⟩
  rcases Nat.lt_or_ge max_retries i with hlt | hle
  · rw [hall (fun j hj => hi.2 j (by omega)), attemptsMade_spaced]
    omega
  · rw [hrun hle hi.2 (.inr hi.1), attemptsMade_spaced]
    omega

end Loop

/-- `with_retry`, `execute_with_retry` and the loop of `RpcClient::call` follow one law, and none of
them comes to its end without an attempt. -/
theorem retry_loops_follow_law (max_retries : UInt32) (delay : ℕ → D) :
    (∀ (E T : Type) (outcomes : ℕ → Except E T),
      RetryLaw id outcomes max_retries.toNat delay ()
        (CallProgram.run (answering outcomes) [] (withRetry max_retries delay))) ∧
    (∀ outcomes : ℕ → Except RszeroError Unit,
      RetryLaw id outcomes max_retries.toNat delay ()
        (CallProgram.run (answering outcomes) [] (executeWithRetry max_retries delay))) ∧
    (∀ (T : Type) (outcomes : ℕ → Option (Except RszeroError T)) (instance_ : ServiceInstance)
        (service : String),
      RetryLaw settleTimeout outcomes max_retries.toNat delay instance_.addr
        (CallProgram.run (answering outcomes) []
          (call (.ok (some instance_)) service max_retries delay))) ∧
    ∀ (A R E T : Type) (settle : R → Except E T) (outcomes : ℕ → R) (addr : A)
        (exhausted : Program A D R (Except E T)),
      RetryLaw settle outcomes max_retries.toNat delay addr
        (CallProgram.run (answering outcomes) []
          (retryLoop settle exhausted max_retries.toNat delay addr none (attempts max_retries))) :=
  ⟨fun _ _ _ => retryLoop_follows_law, fun _ => retryLoop_follows_law,
    fun _ _ _ _ => retryLoop_follows_law, fun _ _ _ _ _ _ _ _ => retryLoop_follows_law⟩

/-- `test_retry_succeeds_eventually` -/
example : CallProgram.run (answering fun k => if k < 2 then .error "not yet" else .ok "success") []
    (withRetry 3 id) =
      ([⟨.attempt (), .error "not yet"⟩, ⟨.sleep 0, ()⟩, ⟨.attempt (), .error "not yet"⟩,
        ⟨.sleep 1, ()⟩, ⟨.attempt (), .ok "success"⟩], some (.ok "success")) := rfl

end Rszero.Retry
