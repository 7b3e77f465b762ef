import Rszero.ConcurrentPrograms
import Rszero.Simulation

/-!
# Tasks that live in a part of the state

Some of the tasks of a platform read and change a part of the shared state only, and the others do
no more to this part than an environment does. Then the platform, seen from that part, is one on
which these tasks run alone: they are answered there as they are answered here.
-/

namespace Rszero.Platform

open CallProgram

variable {Op : Type} {Ans : Op → Type} {κ α σ χ ε τ ψ ζ : Type}

def envs (Q : Platform Ans κ α τ ψ ζ) : τ → List ζ → Option τ
  | t, [] => some t
  | t, e :: es => (Q.env t e).bind (fun t' => envs Q t' es)

@[simp] theorem envs_singleton (Q : Platform Ans κ α τ ψ ζ) (t : τ) (e : ζ) :
    Q.envs t [e] = Q.env t e := Option.bind_fun_some _

theorem exec_envs {Q : Platform Ans κ α τ ψ ζ} {t t' : τ} {es : List ζ}
    {tasks : ℕ → Option (Task Ans κ α)} (h : Q.envs t es = some t') :
    Q.system.exec ⟨t, tasks⟩ (es.map .env) = some ⟨t', tasks⟩ := by
  induction es generalizing t with
  | nil =>
      obtain rfl := Option.some.inj h
      rfl
  | cons e es ih =>
      obtain ⟨u, hu, hrest⟩ := Option.bind_eq_some_iff.1 h
      refine Q.system.exec_cons_eq_some.2 ⟨⟨u, tasks⟩, ?_, ih hrest⟩
      change (Q.env t e).map _ = _
      rw [hu]
      rfl

/-- The tasks with a request of `mine` live in the part of the state that `Q` is about. -/
structure View (P : Platform Ans κ α σ χ ε) (Q : Platform Ans κ α τ ψ ζ) where
  Inv : State Ans κ α σ → Prop
  mine : κ → Bool
  part : σ → τ
  choice : χ → ψ
  effect : σ → χ → Op → List ζ
  passing : ε → List ζ
  inv_init : Inv P.system.init
  inv_step : ∀ s a s', Inv s → P.system.step s a = some s' → Inv s'
  part_init : part P.shared = Q.shared
  body_eq : ∀ k, mine k → Q.body k = P.body k
  own : ∀ {s i task x op rest ans sh}, Inv s → s.tasks i = some task → mine task.request →
    task.rest = .call op rest → P.perform s.shared x op = some (ans, sh) →
    Q.perform (part s.shared) (choice x) op = some (ans, part sh)
  other : ∀ {s i task x op rest ans sh}, Inv s → s.tasks i = some task → mine task.request = false →
    task.rest = .call op rest → P.perform s.shared x op = some (ans, sh) →
    Q.envs (part s.shared) (effect s.shared x op) = some (part sh)
  env : ∀ {s e sh}, Inv s → P.env s.shared e = some sh →
    Q.envs (part s.shared) (passing e) = some (part sh)

namespace View

variable {P : Platform Ans κ α σ χ ε} {Q : Platform Ans κ α τ ψ ζ} (V : View P Q)

/-- The part of the state, and the tasks that live in it. -/
def view (s : State Ans κ α σ) : State Ans κ α τ where
  shared := V.part s.shared
  tasks i := (s.tasks i).filter (fun task => V.mine task.request)

def steps (s : State Ans κ α σ) : Label κ χ ε → List (Label κ ψ ζ)
  | .spawn i k => if V.mine k then [.spawn i k] else []
  | .call i x =>
      match s.tasks i with
      | none => []
      | some task =>
          if V.mine task.request then [.call i (V.choice x)]
          else
            match task.rest with
            | .call op _ => (V.effect s.shared x op).map .env
            | _ => []
  | .cut i => if (s.tasks i).any (fun task => V.mine task.request) then [.cut i] else []
  | .env e => (V.passing e).map .env

variable {V} {s s' : State Ans κ α σ} {a : Label κ χ ε} {i : ℕ} {task : Task Ans κ α}

theorem view_put_mine (hmine : V.mine task.request) :
    V.view (s.put i task) = (V.view s).put i task := by
  simp only [view, State.put, State.mk.injEq, true_and]
  funext j
  by_cases hj : j = i
  · subst hj
    simp [hmine]
  · simp [hj]

/-- A task of the others is not there. -/
theorem view_put_other (hother : V.mine task.request = false)
    (hold : ∀ old, s.tasks i = some old → V.mine old.request = false) :
    V.view (s.put i task) = V.view s := by
  simp only [view, State.put, State.mk.injEq, true_and]
  funext j
  by_cases hj : j = i
  · subst hj
    rw [Function.update_self, Option.filter_eq_none_iff.2 (by simpa using hother), eq_comm,
      Option.filter_eq_none_iff]
    intro old hs
    simpa using hold old hs
  · simp [hj]

theorem view_tasks_mine (ht : s.tasks i = some task) (hmine : V.mine task.request) :
    (V.view s).tasks i = some task := by
  simp [view, ht, hmine]

theorem steps_call_mine {x : χ} (ht : s.tasks i = some task) (hmine : V.mine task.request) :
    V.steps s (.call i x) = [.call i (V.choice x)] := by
  simp only [steps, ht, if_pos hmine]

theorem steps_call_other {x : χ} {op : Op} {rest : Ans op → CallProgram Ans α}
    (ht : s.tasks i = some task) (hother : V.mine task.request = false)
    (hrest : task.rest = .call op rest) :
    V.steps s (.call i x) = (V.effect s.shared x op).map .env := by
  simp [steps, ht, hother, hrest]

theorem exec_one {t t' : State Ans κ α τ} {b : Label κ ψ ζ} (h : Q.system.step t b = some t') :
    Q.system.exec t [b] = some t' :=
  Q.system.exec_cons_eq_some.2 ⟨t', h, rfl⟩

theorem view_step (hInv : V.Inv s) (h : P.system.step s a = some s') :
    Q.system.exec (V.view s) (V.steps s a) = some (V.view s') := by
  cases next_move h with
  | @spawn i k ht =>
      by_cases hk : V.mine k
      · rw [steps, if_pos hk, view_put_mine hk]
        apply exec_one
        have hnone : ((V.view s).tasks i).isNone := by simp [view, ht]
        change (if ((V.view s).tasks i).isNone then _ else none) = _
        rw [if_pos hnone, begun, V.body_eq k hk]
        rfl
      · have hk' : V.mine k = false := by simpa using hk
        have hother : V.mine (P.begun k).request = false := hk'
        rw [steps, if_neg hk, view_put_other hother (fun old hold => by simp [ht] at hold)]
        rfl
  | @call i x task op rest ans shared ht hlive hrest hp =>
      by_cases hk : V.mine task.request
      · have hmine : V.mine (task.answered rest ans).request := hk
        rw [steps_call_mine ht hk, view_put_mine hmine]
        apply exec_one
        change ((V.view s).tasks i).bind _ = _
        rw [view_tasks_mine ht hk, Option.bind_some, if_pos hlive, advance, hrest]
        simp only
        rw [show (V.view s).shared = V.part s.shared from rfl, V.own hInv ht hk hrest hp]
        rfl
      · have hk' : V.mine task.request = false := by simpa using hk
        have hother : V.mine (task.answered rest ans).request = false := hk'
        rw [steps_call_other ht hk' hrest, view_put_other hother]
        · exact exec_envs (V.other hInv ht hk' hrest hp)
        · intro old hold
          obtain rfl := Option.some.inj (ht.symm.trans hold)
          exact hk'
  | @cut i task ht =>
      by_cases hk : V.mine task.request
      · have hstep : V.steps s (.cut i) = [.cut i] := by
          simp only [steps, ht, Option.any_some, if_pos hk]
        have hmine : V.mine { task with live := false }.request := hk
        rw [hstep, view_put_mine hmine]
        apply exec_one
        change ((V.view s).tasks i).map _ = _
        rw [view_tasks_mine ht hk]
        rfl
      · have hk' : V.mine task.request = false := by simpa using hk
        have hother : V.mine { task with live := false }.request = false := hk'
        have hstep : V.steps s (.cut i) = [] := by
          simp only [steps, ht, Option.any_some, if_neg hk]
        rw [hstep, view_put_other hother]
        · rfl
        · intro old hold
          obtain rfl := Option.some.inj (ht.symm.trans hold)
          exact hk'
  | @env e shared he => exact exec_envs (V.env hInv he)

variable (V)

def simulation : Simulation P.system Q.system where
  Inv := V.Inv
  view := V.view
  steps := V.steps
  inv_init := V.inv_init
  inv_step := V.inv_step
  view_init := by
    simp only [view, Platform.system, V.part_init]
    rfl
  view_step _ _ _ hInv h := view_step hInv h

end View

end Rszero.Platform
