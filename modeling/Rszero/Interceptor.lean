import Mathlib.Logic.Function.Basic
import Rszero.CallProgram
import Rszero.Error

/-!
# The interceptor chain

`InterceptorChain::execute` as a program that calls the hooks of its interceptors and the function.
A hook is other code: the environment answers a before hook with the context that it leaves and its
result. An error is known here as far as a hook can look into it, so a serde_json error has its
category and its position beside its text.
-/

namespace Rszero.Interceptor

open CallProgram

/-- `serde_json::error::Category` -/
inductive Category
  | io
  | syntactic
  | data
  | eof
  deriving DecidableEq

/-- `serde_json::Error`, with what its display writes. -/
structure JsonError where
  category : Category
  line : ℕ
  column : ℕ
  text : String
  deriving DecidableEq

/-- `serde_json::Error::io(std::io::Error::other(text))` -/
def JsonError.io (text : String) : JsonError := ⟨.io, 0, 0, text⟩

/-- The errors whose fields are cloned one by one. -/
def Cloneable : RszeroError → Bool
  | .serialization _ => false
  | _ => true

inductive Error
  | serialization (error : JsonError)
  | other (error : RszeroError) (h : Cloneable error)
  deriving DecidableEq

namespace Error

def clone : Error → Error
  | .serialization e => .serialization (.io e.text)
  | .other e h => .other e h

end Error

structure RpcContext where
  service : String
  method : String
  /-- `HashMap<String, String>` -/
  metadata : String → Option String
  start : ℕ

namespace RpcContext

def new (service method : String) (now : ℕ) : RpcContext := ⟨service, method, fun _ => none, now⟩

def setMetadata (ctx : RpcContext) (key value : String) : RpcContext :=
  { ctx with metadata := Function.update ctx.metadata key (some value) }

end RpcContext

variable {I T : Type}

/-- The calls of the chain: a hook of an interceptor, or the function. -/
inductive Hook (I : Type)
  | before (interceptor : I) (ctx : RpcContext)
  | function (ctx : RpcContext)
  | after (interceptor : I) (ctx : RpcContext) (result : Except Error Unit)

abbrev Hook.Answer (T : Type) : Hook I → Type
  | .before .. => RpcContext × Except Error Unit
  | .function _ => Except Error T
  | .after .. => Unit

abbrev Program (I T : Type) := CallProgram (Hook.Answer (I := I) T) (Except Error T)

abbrev HookCalls (I T : Type) := CallProgram.Calls (Hook.Answer (I := I) T)

/-- The first loop, which `?` leaves at an error, and what follows it. -/
def beforeHooks (next : RpcContext → Program I T) : List I → RpcContext → Program I T
  | [], ctx => next ctx
  | interceptor :: interceptors, ctx => .call (.before interceptor ctx) fun answer =>
      match answer.2 with
      | .ok () => beforeHooks next interceptors answer.1
      | .error e => .done (.error e)

def afterHooks (ctx : RpcContext) (result_ref : Except Error Unit) (result : Except Error T) :
    List I → Program I T
  | [] => .done result
  | interceptor :: interceptors => .call (.after interceptor ctx result_ref) fun () =>
      afterHooks ctx result_ref result interceptors

def resultRef : Except Error T → Except Error Unit
  | .ok _ => .ok ()
  | .error e => .error e.clone

/-- The function gets a clone of the context, and the after hooks the context itself. -/
def execute (interceptors : List I) (ctx : RpcContext) : Program I T :=
  beforeHooks (fun ctx => .call (.function ctx) fun result =>
    afterHooks ctx (resultRef result) result interceptors) interceptors ctx

/-- What the after hooks see of a result when they see `view e` for the error `e`. -/
def seen (view : Error → Error) : Except Error T → Except Error Unit
  | .ok _ => .ok ()
  | .error e => .error (view e)

theorem resultRef_eq_seen (result : Except Error T) :
    resultRef result = seen Error.clone result := by
  cases result with
  | ok value => rfl
  | error e => rfl

/-- The before hooks of the interceptors in order, each on the context that the one before has
left, when all succeed. -/
inductive Entered : List I → RpcContext → HookCalls I T → RpcContext → Prop
  | nil {ctx : RpcContext} : Entered [] ctx [] ctx
  | cons {interceptor : I} {interceptors : List I} {ctx ctx' last : RpcContext}
      {calls : HookCalls I T} (h : Entered interceptors ctx' calls last) :
      Entered (interceptor :: interceptors) ctx
        (⟨.before interceptor ctx, (ctx', .ok ())⟩ :: calls) last

def left (interceptors : List I) (ctx : RpcContext) (result : Except Error Unit) :
    HookCalls I T :=
  interceptors.map (fun interceptor => ⟨.after interceptor ctx result, ()⟩)

/-- The calls of a chain and its result, where the after hooks see `view e` for the error `e`. -/
inductive Trace (view : Error → Error) (interceptors : List I) (ctx : RpcContext) :
    HookCalls I T → Except Error T → Prop
  | refused {passed rest : List I} {interceptor : I} {calls : HookCalls I T}
      {last ctx' : RpcContext} {e : Error} (hsplit : interceptors = passed ++ interceptor :: rest)
      (hentered : Entered passed ctx calls last) :
      Trace view interceptors ctx
        (calls ++ [⟨.before interceptor last, (ctx', .error e)⟩]) (.error e)
  | called {calls : HookCalls I T} {last : RpcContext} {result : Except Error T}
      (hentered : Entered interceptors ctx calls last) :
      Trace view interceptors ctx
        (calls ++ ⟨.function last, result⟩ :: left interceptors last (seen view result)) result

theorem run_afterHooks (env : Environment (Hook.Answer (I := I) T)) (ctx : RpcContext)
    (result_ref : Except Error Unit) (result : Except Error T) (interceptors : List I)
    (past : HookCalls I T) :
    run env past (afterHooks ctx result_ref result interceptors) =
      (past ++ left interceptors ctx result_ref, some result) := by
  induction interceptors generalizing past with
  | nil => simp [afterHooks, left, run]
  | cons interceptor interceptors ih =>
      simp only [afterHooks, run]
      rw [ih]
      simp [left]

/-- The first loop ends early at the first hook that fails, or goes on with the last context. -/
theorem run_beforeHooks (env : Environment (Hook.Answer (I := I) T))
    (next : RpcContext → Program I T) (interceptors : List I) (ctx : RpcContext)
    (past : HookCalls I T) :
    (∃ passed interceptor rest calls last ctx' e,
        interceptors = passed ++ interceptor :: rest ∧ Entered passed ctx calls last ∧
        run env past (beforeHooks next interceptors ctx) =
          (past ++ (calls ++ [⟨.before interceptor last, (ctx', .error e)⟩]),
            some (.error e))) ∨
      ∃ calls last, Entered interceptors ctx calls last ∧
        run env past (beforeHooks next interceptors ctx) = run env (past ++ calls) (next last) := by
  induction interceptors generalizing ctx past with
  | nil =>
      refine .inr ⟨[], ctx, .nil, ?_⟩
      rw [List.append_nil]
      rfl
  | cons interceptor interceptors ih =>
      rcases hans : env past (.before interceptor ctx) with ⟨ctx', outcome⟩
      have hrun : run env past (beforeHooks next (interceptor :: interceptors) ctx) =
          run env (past ++ [⟨.before interceptor ctx, (ctx', outcome)⟩])
            (match outcome with
              | .ok () => beforeHooks next interceptors ctx'
              | .error e => .done (.error e)) := by
        simp only [beforeHooks, run, hans]
      cases outcome with
      | error e =>
          exact .inl ⟨[], interceptor, interceptors, [], ctx, ctx', e, rfl, .nil, hrun⟩
      | ok u =>
          -- the loop goes on from the context that this hook has left
          rcases ih ctx' (past ++ [⟨.before interceptor ctx, (ctx', .ok u)⟩]) with
            ⟨passed, failing, rest, calls, last, ctx'', e, rfl, hentered, hrest⟩ |
            ⟨calls, last, hentered, hrest⟩
          · refine .inl ⟨interceptor :: passed, failing, rest, _, last, ctx'', e, rfl,
              .cons hentered, ?_⟩
            rw [hrun, hrest]
            simp
          · refine .inr ⟨_, last, .cons hentered, ?_⟩
            rw [hrun, hrest]
            simp

/-- Whatever the hooks and the function do, the chain returns, and its calls are the before hooks
up to the first that fails, or else all of them, the function once on the last context, and all the
after hooks on that context with a clone of the error. -/
theorem execute_trace (interceptors : List I) (ctx : RpcContext)
    (env : Environment (Hook.Answer (I := I) T)) :
    ∃ result, (run env [] (execute interceptors ctx)).2 = some result ∧
      Trace Error.clone interceptors ctx (run env [] (execute interceptors ctx)).1 result := by
  rcases run_beforeHooks env _ interceptors ctx [] with
    ⟨passed, interceptor, rest, calls, last, ctx', e, hsplit, hentered, hrun⟩ |
    ⟨calls, last, hentered, hrun⟩
  · refine ⟨.error e, ?_⟩
    rw [execute, hrun]
    exact ⟨rfl, .refused hsplit hentered⟩
  · refine ⟨env calls (.function last), ?_⟩
    rw [execute, hrun]
    simp only [run, run_afterHooks, resultRef_eq_seen]
    refine ⟨rfl, ?_⟩
    simpa using Trace.called hentered

def unreadable : Environment (Hook.Answer (I := Unit) Unit)
  | _, .before _ ctx => (ctx, .ok ())
  | _, .function _ =>
      .error (.serialization ⟨.syntactic, 1, 2, "expected value at line 1 column 2"⟩)
  | _, .after .. => ()

theorem execute_trace_clones : ¬ ∀ (interceptors : List Unit) (ctx : RpcContext)
    (env : Environment (Hook.Answer (I := Unit) Unit)),
    ∃ result, (run env [] (execute interceptors ctx)).2 = some result ∧
      Trace id interceptors ctx (run env [] (execute interceptors ctx)).1 result := by
  intro h
  obtain ⟨result, -, htrace⟩ := h [()] (.new "users" "get" 0) unreadable
  generalize hcalls : (run unreadable [] (execute [()] (.new "users" "get" 0))).1 = calls at htrace
  cases htrace with
  | refused hsplit hentered =>
      have hlen := congrArg List.length hcalls
      rcases List.append_eq_singleton_iff.1 hsplit.symm with ⟨rfl, -⟩ | ⟨-, hnil⟩
      · cases hentered
        simp [execute, beforeHooks, afterHooks, run, unreadable] at hlen
      · cases hnil
  | called hentered =>
      cases hentered with
      | cons hentered =>
          cases hentered
          simp [execute, beforeHooks, afterHooks, run, unreadable, left, seen, resultRef,
            Error.clone, JsonError.io] at hcalls
          obtain ⟨-, ⟨-, rfl⟩, -, herror⟩ := hcalls
          simp at herror

/-- The after hooks of these only log. -/
inductive BuiltIn
  | logging
  | metrics
  | timeout (timeout : ℕ)
  | retry (max_retries : UInt32)

def BuiltIn.before (ctx : RpcContext) : BuiltIn → RpcContext × Except Error Unit
  | .retry max_retries => (ctx.setMetadata "max_retries" (toString max_retries.toNat), .ok ())
  | _ => (ctx, .ok ())

theorem BuiltIn.before_succeeds (ctx : RpcContext) (interceptor : BuiltIn) :
    interceptor.before ctx = ((interceptor.before ctx).1, .ok ()) := by
  cases interceptor <;> rfl

def enter (ctx : RpcContext) (interceptors : List BuiltIn) : RpcContext :=
  interceptors.foldl (fun ctx interceptor => (interceptor.before ctx).1) ctx

theorem run_builtIn {env : Environment (Hook.Answer (I := BuiltIn) T)}
    (henv : ∀ past interceptor ctx, env past (.before interceptor ctx) = interceptor.before ctx)
    (next : RpcContext → Program BuiltIn T) (interceptors : List BuiltIn) (ctx : RpcContext)
    (past : HookCalls BuiltIn T) :
    ∃ calls, Entered interceptors ctx calls (enter ctx interceptors) ∧
      run env past (beforeHooks next interceptors ctx) =
        run env (past ++ calls) (next (enter ctx interceptors)) := by
  induction interceptors generalizing ctx past with
  | nil => exact ⟨[], .nil, by rw [List.append_nil]; rfl⟩
  | cons interceptor interceptors ih =>
      obtain ⟨calls, hentered, hrun⟩ := ih (interceptor.before ctx).1
        (past ++ [⟨.before interceptor ctx, ((interceptor.before ctx).1, .ok ())⟩])
      refine ⟨_, .cons hentered, ?_⟩
      have hans := (henv past interceptor ctx).trans (interceptor.before_succeeds ctx)
      simp only [beforeHooks, run, hans]
      rw [hrun]
      simp [enter]

/-- A chain of built-in interceptors answers as the function does on the context that they leave,
and what they change in the context is the number of retries. -/
theorem execute_builtIn {env : Environment (Hook.Answer (I := BuiltIn) T)}
    (henv : ∀ past interceptor ctx, env past (.before interceptor ctx) = interceptor.before ctx)
    (interceptors : List BuiltIn) (ctx : RpcContext) :
    ∃ calls, Entered interceptors ctx calls (enter ctx interceptors) ∧
      (run env [] (execute interceptors ctx)).2 =
        some (env calls (.function (enter ctx interceptors))) := by
  obtain ⟨calls, hentered, hrun⟩ := run_builtIn henv _ interceptors ctx []
  refine ⟨calls, hentered, ?_⟩
  rw [execute, hrun]
  simp only [run, run_afterHooks]
  rfl

theorem enter_frame (interceptors : List BuiltIn) (ctx : RpcContext) :
    (enter ctx interceptors).service = ctx.service ∧ (enter ctx interceptors).method = ctx.method ∧
      (enter ctx interceptors).start = ctx.start ∧
      ∀ key, key ≠ "max_retries" → (enter ctx interceptors).metadata key = ctx.metadata key := by
  induction interceptors generalizing ctx with
  | nil => exact ⟨rfl, rfl, rfl, fun _ _ => rfl⟩
  | cons interceptor interceptors ih =>
      obtain ⟨hservice, hmethod, hstart, hmetadata⟩ := ih (interceptor.before ctx).1
      cases interceptor with
      | retry max_retries =>
          refine ⟨hservice, hmethod, hstart, fun key hkey => ?_⟩
          exact (hmetadata key hkey).trans (Function.update_of_ne hkey ..)
      | logging => exact ⟨hservice, hmethod, hstart, hmetadata⟩
      | metrics => exact ⟨hservice, hmethod, hstart, hmetadata⟩
      | timeout timeout => exact ⟨hservice, hmethod, hstart, hmetadata⟩

end Rszero.Interceptor
