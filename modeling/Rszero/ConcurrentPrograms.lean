import Mathlib.Logic.Function.Basic
import Mathlib.Tactic.Common
import Rszero.CallProgram
import Rszero.TransitionSystem

/-!
# Programs that share a state

Tasks run programs that call one shared state. A step of a task is one call, which reads and changes
the shared state at once; the scheduler picks the task, and a choice resolves what the call leaves
open. A task may be cut off between two of its calls, and the environment changes the shared state
by itself. `Reaches` says which calls bring a program to which point, so that the points of a
program are listed once and every invariant of the runs looks at them only.
-/

namespace Rszero

open CallProgram

namespace CallProgram

variable {Op : Type} {Ans : Op → Type} {α : Type}

/-- The program is left with `rest` after the calls of `past`. -/
inductive Reaches (p : CallProgram Ans α) : Calls Ans → CallProgram Ans α → Prop
  | start : Reaches p [] p
  | call {past : Calls Ans} {op : Op} {next : Ans op → CallProgram Ans α}
      (h : Reaches p past (.call op next)) (ans : Ans op) :
      Reaches p (past ++ [⟨op, ans⟩]) (next ans)

variable {p q r : CallProgram Ans α} {past past' : Calls Ans} {a : α} {op : Op}
  {next : Ans op → CallProgram Ans α}

theorem Reaches.trans (h : Reaches p past q) (h' : Reaches q past' r) :
    Reaches p (past ++ past') r := by
  induction h' with
  | start => rwa [List.append_nil]
  | call _ ans ih =>
      rw [← List.append_assoc]
      exact ih.call ans

theorem reaches_done_iff : Reaches (.done a) past r ↔ past = [] ∧ r = .done a := by
  constructor
  · intro h
    induction h with
    | start => exact ⟨rfl, rfl⟩
    | call _ _ ih => cases ih.2
  · rintro ⟨rfl, rfl⟩
    exact .start

/-- A program that calls is at its call, or where the answer to it has led. -/
theorem reaches_call_iff : Reaches (.call op next) past r ↔
    past = [] ∧ r = .call op next ∨
      ∃ ans past', past = ⟨op, ans⟩ :: past' ∧ Reaches (next ans) past' r := by
  constructor
  · intro h
    induction h with
    | start => exact .inl ⟨rfl, rfl⟩
    | call _ ans ih =>
        rcases ih with ⟨rfl, hcall⟩ | ⟨ans', past', rfl, h'⟩
        · cases hcall
          exact .inr ⟨ans, [], rfl, .start⟩
        · exact .inr ⟨ans', past' ++ [⟨_, ans⟩], rfl, h'.call ans⟩
  · rintro (⟨rfl, rfl⟩ | ⟨ans, past', rfl, h⟩)
    · exact .start
    · exact (Reaches.start.call ans).trans h

theorem Reaches.ensures {rely : Sigma Ans → Prop} {guar : Calls Ans → Sigma Ans → Prop}
    {Q : Calls Ans → α → Prop} (h : Reaches p past q) (hp : p.Ensures rely guar Q [])
    (hrely : ∀ e ∈ past, rely e) : q.Ensures rely guar Q past := by
  induction h with
  | start => exact hp
  | call _ ans ih =>
      have hbefore := ih (fun e he => hrely e (List.mem_append_left _ he))
      exact (hbefore ans (hrely _ (by simp))).2

/-- Wherever the program gets an answer, it goes on as `R` says. -/
def Always (R : (op : Op) → Ans op → CallProgram Ans α → Prop) : CallProgram Ans α → Prop
  | .done _ => True
  | .panic => True
  | .call op next => ∀ ans, R op ans (next ans) ∧ (next ans).Always R

end CallProgram

/-- The program of a request, how the shared state answers a call, and what the environment does. -/
structure Platform {Op : Type} (Ans : Op → Type) (κ α σ χ ε : Type) where
  shared : σ
  body : κ → CallProgram Ans α
  perform : σ → χ → (op : Op) → Option (Ans op × σ)
  env : σ → ε → Option σ

namespace Platform

variable {Op : Type} {Ans : Op → Type} {κ α σ χ ε : Type}

structure Task (Ans : Op → Type) (κ α : Type) where
  request : κ
  past : Calls Ans
  rest : CallProgram Ans α
  live : Bool

structure State (Ans : Op → Type) (κ α σ : Type) where
  shared : σ
  tasks : ℕ → Option (Task Ans κ α)

inductive Label (κ χ ε : Type)
  | spawn (i : ℕ) (k : κ)
  | call (i : ℕ) (x : χ)
  | cut (i : ℕ)
  | env (e : ε)

def State.put (s : State Ans κ α σ) (i : ℕ) (task : Task Ans κ α) : State Ans κ α σ :=
  { s with tasks := Function.update s.tasks i (some task) }

def Task.answered (task : Task Ans κ α) {op : Op} (rest : Ans op → CallProgram Ans α)
    (ans : Ans op) : Task Ans κ α :=
  { task with past := task.past ++ [⟨op, ans⟩], rest := rest ans }

variable (P : Platform Ans κ α σ χ ε)

def begun (k : κ) : Task Ans κ α := ⟨k, [], P.body k, true⟩

def advance (s : State Ans κ α σ) (i : ℕ) (x : χ) (task : Task Ans κ α) :
    Option (State Ans κ α σ) :=
  match task.rest with
  | .call op rest =>
      (P.perform s.shared x op).map (fun r =>
        { s with shared := r.2 }.put i (task.answered rest r.1))
  | _ => none

def next (s : State Ans κ α σ) : Label κ χ ε → Option (State Ans κ α σ)
  | .spawn i k => if (s.tasks i).isNone then some (s.put i (P.begun k)) else none
  | .call i x => (s.tasks i).bind (fun task => if task.live then P.advance s i x task else none)
  | .cut i => (s.tasks i).map (fun task => s.put i { task with live := false })
  | .env e => (P.env s.shared e).map (fun shared => { s with shared := shared })

def system : TransitionSystem (State Ans κ α σ) (Label κ χ ε) where
  init := ⟨P.shared, fun _ => none⟩
  step := P.next

inductive Move (s : State Ans κ α σ) : Label κ χ ε → State Ans κ α σ → Prop
  | spawn {i : ℕ} {k : κ} (ht : s.tasks i = none) : Move s (.spawn i k) (s.put i (P.begun k))
  | call {i : ℕ} {x : χ} {task : Task Ans κ α} {op : Op} {rest : Ans op → CallProgram Ans α}
      {ans : Ans op} {shared : σ} (ht : s.tasks i = some task) (hlive : task.live)
      (hrest : task.rest = .call op rest) (hp : P.perform s.shared x op = some (ans, shared)) :
      Move s (.call i x) ({ s with shared := shared }.put i (task.answered rest ans))
  | cut {i : ℕ} {task : Task Ans κ α} (ht : s.tasks i = some task) :
      Move s (.cut i) (s.put i { task with live := false })
  | env {e : ε} {shared : σ} (he : P.env s.shared e = some shared) :
      Move s (.env e) { s with shared := shared }

variable {P} {s s' : State Ans κ α σ} {a : Label κ χ ε}

theorem next_move (h : P.system.step s a = some s') : P.Move s a s' := by
  cases a with
  | spawn i k =>
      change (if (s.tasks i).isNone then some (s.put i (P.begun k)) else none) = some s' at h
      by_cases ht : (s.tasks i).isNone
      · rw [if_pos ht] at h
        cases h
        exact .spawn (Option.isNone_iff_eq_none.1 ht)
      · rw [if_neg ht] at h
        cases h
  | call i x =>
      obtain ⟨task, ht, hadvance⟩ := Option.bind_eq_some_iff.1 h
      by_cases hlive : task.live
      · rw [if_pos hlive] at hadvance
        unfold advance at hadvance
        cases hrest : task.rest with
        | call op rest =>
            rw [hrest] at hadvance
            obtain ⟨⟨ans, shared⟩, hp, rfl⟩ := Option.map_eq_some_iff.1 hadvance
            exact .call ht hlive hrest hp
        | done a =>
            rw [hrest] at hadvance
            cases hadvance
        | panic =>
            rw [hrest] at hadvance
            cases hadvance
      · rw [if_neg hlive] at hadvance
        cases hadvance
  | cut i =>
      obtain ⟨task, ht, rfl⟩ := Option.map_eq_some_iff.1 h
      exact .cut ht
  | env e =>
      obtain ⟨shared, he, rfl⟩ := Option.map_eq_some_iff.1 h
      exact .env he

@[simp] theorem put_shared (s : State Ans κ α σ) (i : ℕ) (task : Task Ans κ α) :
    (s.put i task).shared = s.shared := rfl

@[simp] theorem put_tasks_self (s : State Ans κ α σ) (i : ℕ) (task : Task Ans κ α) :
    (s.put i task).tasks i = some task := Function.update_self ..

theorem put_tasks_of_ne {i j : ℕ} (hne : j ≠ i) (s : State Ans κ α σ) (task : Task Ans κ α) :
    (s.put i task).tasks j = s.tasks j := Function.update_of_ne hne ..

/-- A task of the new state is the one that was put there or an old one. -/
theorem tasks_put {i j : ℕ} {task task' : Task Ans κ α} (h : (s.put i task).tasks j = some task') :
    j = i ∧ task' = task ∨ j ≠ i ∧ s.tasks j = some task' := by
  by_cases hj : j = i
  · subst hj
    rw [put_tasks_self] at h
    exact .inl ⟨rfl, (Option.some.inj h).symm⟩
  · rw [put_tasks_of_ne hj] at h
    exact .inr ⟨hj, h⟩

/-- What holds of every task, and of the one that is put there, holds of every task. -/
theorem forall_put {i : ℕ} {task : Task Ans κ α} {p : Task Ans κ α → Prop}
    (h : ∀ j task', s.tasks j = some task' → p task') (htask : p task) :
    ∀ j task', (s.put i task).tasks j = some task' → p task' := by
  intro j task' hj
  rcases tasks_put hj with ⟨-, rfl⟩ | ⟨-, hj⟩
  · exact htask
  · exact h j task' hj

variable (P) in
/-- The shared state satisfies `I`, every task is at a point of its program, and it was answered as
it may rely on. -/
structure Keeps (I : σ → Prop) (rely : κ → Sigma Ans → Prop) (s : State Ans κ α σ) : Prop where
  shared : I s.shared
  reaches : ∀ i task, s.tasks i = some task → (P.body task.request).Reaches task.past task.rest
  relied : ∀ i task, s.tasks i = some task → ∀ e ∈ task.past, rely task.request e

variable {I : σ → Prop} {rely : κ → Sigma Ans → Prop}

theorem Keeps.put (h : P.Keeps I rely s) {i : ℕ} {task : Task Ans κ α}
    (hreaches : (P.body task.request).Reaches task.past task.rest)
    (hrelied : ∀ e ∈ task.past, rely task.request e) : P.Keeps I rely (s.put i task) where
  shared := h.shared
  reaches := by
    intro j task' hj
    rcases tasks_put hj with ⟨-, rfl⟩ | ⟨-, hj⟩
    · exact hreaches
    · exact h.reaches j task' hj
  relied := by
    intro j task' hj
    rcases tasks_put hj with ⟨-, rfl⟩ | ⟨-, hj⟩
    · exact hrelied
    · exact h.relied j task' hj

theorem Keeps.init (hI : I P.shared) : P.Keeps I rely P.system.init where
  shared := hI
  reaches := by
    intro i task h
    cases h
  relied := by
    intro i task h
    cases h

variable (P) in
/-- Every call at a point of its program, and every step of the environment, keeps `I`, and the
answers are as relied on. -/
structure Preserves (I : σ → Prop) (rely : κ → Sigma Ans → Prop) : Prop where
  perform : ∀ {k past op rest x sh ans sh'}, I sh → (P.body k).Reaches past (.call op rest) →
    (∀ e ∈ past, rely k e) → P.perform sh x op = some (ans, sh') → I sh' ∧ rely k ⟨op, ans⟩
  env : ∀ {sh e sh'}, I sh → P.env sh e = some sh' → I sh'

/-- It is enough that the step at hand keeps `I`. -/
theorem Keeps.step_of (h : P.Keeps I rely s)
    (hperform : ∀ {i x task op rest ans sh'}, a = .call i x → s.tasks i = some task → task.live →
      task.rest = .call op rest → P.perform s.shared x op = some (ans, sh') →
      I sh' ∧ rely task.request ⟨op, ans⟩)
    (henv : ∀ {e sh'}, a = .env e → P.env s.shared e = some sh' → I sh')
    (hstep : P.system.step s a = some s') : P.Keeps I rely s' := by
  cases next_move hstep with
  | spawn ht => exact h.put .start (fun e he => absurd he List.not_mem_nil)
  | @call i x task op rest ans shared ht hlive hrest hp =>
      obtain ⟨hI, hans⟩ := hperform rfl ht hlive hrest hp
      have hshared : P.Keeps I rely { s with shared := shared } := { h with shared := hI }
      have hreaches := hrest ▸ h.reaches i task ht
      refine hshared.put (hreaches.call ans) ?_
      intro e he
      rcases List.mem_append.1 he with he | he
      · exact h.relied i task ht e he
      · rw [List.mem_singleton.1 he]
        exact hans
  | @cut i task ht => exact h.put (h.reaches i task ht) (h.relied i task ht)
  | env he => exact { h with shared := henv rfl he }

theorem Keeps.step (hP : P.Preserves I rely) (h : P.Keeps I rely s)
    (hstep : P.system.step s a = some s') : P.Keeps I rely s' := by
  refine h.step_of ?_ (fun _ he => hP.env h.shared he) hstep
  intro i x task op rest ans sh' _ ht _ hrest hp
  exact hP.perform h.shared (hrest ▸ h.reaches i task ht) (h.relied i task ht) hp

theorem Keeps.exec (hP : P.Preserves I rely) (hI : I P.shared) {run : List (Label κ χ ε)}
    (he : P.system.exec P.system.init run = some s) : P.Keeps I rely s := by
  exact P.system.exec_invariant (fun _ _ _ h hstep => h.step hP hstep) (.init hI) he

def Task.Extends (task' task : Task Ans κ α) : Prop :=
  task'.request = task.request ∧ task.past <+: task'.past

theorem extends_step {i : ℕ} {task : Task Ans κ α} (ht : s.tasks i = some task)
    (hstep : P.system.step s a = some s') :
    ∃ task', s'.tasks i = some task' ∧ task'.Extends task := by
  have hself : task.Extends task := ⟨rfl, List.prefix_rfl⟩
  cases next_move hstep with
  | @spawn j k hj =>
      have hne : i ≠ j := by
        rintro rfl
        exact Option.some_ne_none task (ht.symm.trans hj)
      exact ⟨task, (put_tasks_of_ne hne s _).trans ht, hself⟩
  | @call j x task' op rest ans shared hj hlive hrest hp =>
      by_cases hij : i = j
      · subst hij
        obtain rfl := Option.some.inj (ht.symm.trans hj)
        exact ⟨_, put_tasks_self .., rfl, List.prefix_append ..⟩
      · exact ⟨task, (put_tasks_of_ne hij _ _).trans ht, hself⟩
  | @cut j task' hj =>
      by_cases hij : i = j
      · subst hij
        obtain rfl := Option.some.inj (ht.symm.trans hj)
        exact ⟨_, put_tasks_self .., hself⟩
      · exact ⟨task, (put_tasks_of_ne hij _ _).trans ht, hself⟩
  | env he => exact ⟨task, ht, hself⟩

theorem extends_exec {i : ℕ} {task : Task Ans κ α} (ht : s.tasks i = some task)
    {run : List (Label κ χ ε)} (he : P.system.exec s run = some s') :
    ∃ task', s'.tasks i = some task' ∧ task'.Extends task := by
  induction run generalizing s task with
  | nil => exact ⟨task, Option.some.inj he ▸ ht, rfl, List.prefix_rfl⟩
  | cons a run ih =>
      obtain ⟨t, hstep, hrest⟩ := P.system.exec_cons_eq_some.1 he
      obtain ⟨task', ht', hrequest, hpast⟩ := extends_step ht hstep
      obtain ⟨task'', ht'', hrequest', hpast'⟩ := ih ht' hrest
      exact ⟨task'', ht'', hrequest'.trans hrequest, hpast.trans hpast'⟩

end Platform
end Rszero
