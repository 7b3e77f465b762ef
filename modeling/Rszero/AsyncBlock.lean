import Mathlib.Tactic.Common

/-!
# Asynchronous blocks and drop glue

A block issues effects, awaits what its environment does, and ends with a result. An await is
answered, or what is awaited panics, or the whole block is dropped there; wherever the block ends,
the glue of the guards that are alive runs, that of the last one first. Glue may need a place where
tasks can be spawned, which a block has but for some places where it is dropped.
-/

namespace Rszero

inductive Outcome (α : Type)
  | value (a : α)
  | panics
  | dropped (spawns : Bool)

inductive Exit (α : Type)
  | returned (a : α)
  | panicked
  | dropped (spawns : Bool)

def Exit.spawns {α : Type} : Exit α → Bool
  | .returned _ | .panicked => true
  | .dropped spawns => spawns

inductive AsyncBlock {Op : Type} (Ans : Op → Type) (ε α : Type)
  | ready (a : α)
  | issue (e : ε) (rest : AsyncBlock Ans ε α)
  | await (op : Op) (next : Ans op → AsyncBlock Ans ε α)
  | guarded (glue : Bool → List ε) (rest : AsyncBlock Ans ε α)

namespace AsyncBlock

variable {Op : Type} {Ans : Op → Type} {ε α : Type}

/-- What becomes of the awaits, which are counted. -/
abbrev Environment (Ans : Op → Type) := ℕ → (op : Op) → Outcome (Ans op)

/-- What a block issues from its await `n` on, and how it ends. -/
def run (env : Environment Ans) : ℕ → AsyncBlock Ans ε α → List ε × Exit α
  | _, .ready a => ([], .returned a)
  | n, .issue e rest => (e :: (run env n rest).1, (run env n rest).2)
  | n, .await op next =>
      match env n op with
      | .value ans => run env (n + 1) (next ans)
      | .panics => ([], .panicked)
      | .dropped spawns => ([], .dropped spawns)
  | n, .guarded glue rest =>
      ((run env n rest).1 ++ glue (run env n rest).2.spawns, (run env n rest).2)

/-- The awaits that a run from its await `n` on comes to. -/
def awaits (env : Environment Ans) : ℕ → AsyncBlock Ans ε α → List Op
  | _, .ready _ => []
  | n, .issue _ rest => awaits env n rest
  | n, .await op next =>
      op :: (match env n op with
        | .value ans => awaits env (n + 1) (next ans)
        | .panics | .dropped _ => [])
  | n, .guarded _ rest => awaits env n rest

variable {env : Environment Ans} {n : ℕ}

@[simp] theorem exit_run_issue (e : ε) (rest : AsyncBlock Ans ε α) :
    (run env n (.issue e rest)).2 = (run env n rest).2 := rfl

@[simp] theorem exit_run_guarded (glue : Bool → List ε) (rest : AsyncBlock Ans ε α) :
    (run env n (.guarded glue rest)).2 = (run env n rest).2 := rfl

@[simp] theorem awaits_issue (e : ε) (rest : AsyncBlock Ans ε α) :
    awaits env n (.issue e rest) = awaits env n rest := rfl

@[simp] theorem awaits_guarded (glue : Bool → List ε) (rest : AsyncBlock Ans ε α) :
    awaits env n (.guarded glue rest) = awaits env n rest := rfl

theorem mem_run_issue {e e' : ε} {rest : AsyncBlock Ans ε α} :
    e ∈ (run env n (.issue e' rest)).1 ↔ e = e' ∨ e ∈ (run env n rest).1 := by
  rw [run, List.mem_cons]

/-- Another effect than the one that is issued first. -/
theorem mem_run_issue_of_ne {e e' : ε} {rest : AsyncBlock Ans ε α} (h : e ≠ e') :
    e ∈ (run env n (.issue e' rest)).1 ↔ e ∈ (run env n rest).1 := by
  rw [mem_run_issue, or_iff_right h]

theorem run_await_value {op : Op} {next : Ans op → AsyncBlock Ans ε α} {ans : Ans op}
    (h : env n op = .value ans) : run env n (.await op next) = run env (n + 1) (next ans) := by
  simp [run, h]

theorem mem_awaits_await (op : Op) (next : Ans op → AsyncBlock Ans ε α) :
    op ∈ awaits env n (.await op next) := by
  rw [awaits]
  exact List.mem_cons_self

theorem awaits_await_value {op : Op} {next : Ans op → AsyncBlock Ans ε α} {ans : Ans op}
    (h : env n op = .value ans) :
    awaits env n (.await op next) = op :: awaits env (n + 1) (next ans) := by
  simp [awaits, h]

theorem run_await_panics {op : Op} {next : Ans op → AsyncBlock Ans ε α}
    (h : env n op = .panics) : run env n (.await op next) = ([], .panicked) := by
  simp [run, h]

theorem run_await_dropped {op : Op} {next : Ans op → AsyncBlock Ans ε α} {spawns : Bool}
    (h : env n op = .dropped spawns) : run env n (.await op next) = ([], .dropped spawns) := by
  simp [run, h]

theorem mem_run_await {op : Op} {next : Ans op → AsyncBlock Ans ε α} {e : ε} :
    e ∈ (run env n (.await op next)).1 ↔
      ∃ ans, env n op = .value ans ∧ e ∈ (run env (n + 1) (next ans)).1 := by
  cases henv : env n op with
  | value ans =>
      rw [run_await_value henv]
      simp
  | panics =>
      rw [run_await_panics henv]
      simp
  | dropped spawns =>
      rw [run_await_dropped henv]
      simp

/-- An await ends where glue cannot spawn if it is dropped there, or in what comes after it. -/
theorem mem_or_spawns_await {op : Op} {next : Ans op → AsyncBlock Ans ε α} {e : ε} :
    (e ∈ (run env n (.await op next)).1 ∨ (run env n (.await op next)).2.spawns) ↔
      env n op ≠ .dropped false ∧ ∀ ans, env n op = .value ans →
        e ∈ (run env (n + 1) (next ans)).1 ∨ (run env (n + 1) (next ans)).2.spawns := by
  cases henv : env n op with
  | value ans =>
      rw [run_await_value henv]
      simp
  | panics =>
      rw [run_await_panics henv]
      simp [Exit.spawns]
  | dropped spawns =>
      rw [run_await_dropped henv]
      cases spawns <;> simp [Exit.spawns]

/-- The glue of a guard runs at every exit. -/
theorem mem_run_guarded {glue : Bool → List ε} {rest : AsyncBlock Ans ε α} {e : ε} :
    e ∈ (run env n (.guarded glue rest)).1 ↔
      e ∈ (run env n rest).1 ∨ e ∈ glue (run env n rest).2.spawns := by
  rw [run, List.mem_append]

def Only (p : ε → Prop) : AsyncBlock Ans ε α → Prop
  | .ready _ => True
  | .issue e rest => p e ∧ Only p rest
  | .await _ next => ∀ ans, Only p (next ans)
  | .guarded glue rest => (∀ spawns, ∀ e ∈ glue spawns, p e) ∧ Only p rest

theorem Only.run {p : ε → Prop} {block : AsyncBlock Ans ε α} (h : block.Only p)
    (env : Environment Ans) (n : ℕ) : ∀ e ∈ (run env n block).1, p e := by
  induction block generalizing n with
  | ready a =>
      intro e he
      cases he
  | issue e rest ih =>
      intro e' he'
      rcases mem_run_issue.1 he' with rfl | hrest
      · exact h.1
      · exact ih h.2 n e' hrest
  | await op next ih =>
      intro e he
      obtain ⟨ans, -, hnext⟩ := mem_run_await.1 he
      exact ih ans (h ans) (n + 1) e hnext
  | guarded glue rest ih =>
      intro e he
      rcases mem_run_guarded.1 he with hrest | hglue
      · exact ih h.2 n e hrest
      · exact h.1 _ e hglue

end AsyncBlock
end Rszero
