import Rszero.TransitionSystem

/-!
# Simulation

One system does what another one does, with a run of the other for each of its steps.
-/

namespace Rszero

/-- In the states with the invariant, every step of `S` is a run of `T`. -/
structure Simulation {σ ι τ κ : Type*} (S : TransitionSystem σ ι) (T : TransitionSystem τ κ) where
  Inv : σ → Prop
  view : σ → τ
  steps : σ → ι → List κ
  inv_init : Inv S.init
  inv_step : ∀ s a s', Inv s → S.step s a = some s' → Inv s'
  view_init : view S.init = T.init
  view_step : ∀ s a s', Inv s → S.step s a = some s' →
    T.exec (view s) (steps s a) = some (view s')

namespace Simulation

variable {σ ι τ κ : Type*} {S : TransitionSystem σ ι} {T : TransitionSystem τ κ}
  (sim : Simulation S T)

def run : σ → List ι → List κ
  | _, [] => []
  | s, a :: as => sim.steps s a ++ ((S.step s a).map (fun s' => run s' as)).getD []

variable {s s' t : σ} {a : ι} {as : List ι}

theorem run_cons (h : S.step s a = some t) :
    sim.run s (a :: as) = sim.steps s a ++ sim.run t as := by
  simp [run, h]

theorem exec_run (hs : sim.Inv s) (he : S.exec s as = some s') :
    T.exec (sim.view s) (sim.run s as) = some (sim.view s') := by
  induction as generalizing s with
  | nil => rw [Option.some.inj he]; rfl
  | cons a as ih =>
      obtain ⟨t, ht, hr⟩ := S.exec_cons_eq_some.1 he
      rw [sim.run_cons ht]
      exact T.exec_append (sim.view_step s a t hs ht) (ih (sim.inv_step s a t hs ht) hr)

theorem inv_exec (he : S.exec S.init as = some s) : sim.Inv s :=
  S.exec_invariant sim.inv_step sim.inv_init he

theorem exec_view (he : S.exec S.init as = some s) :
    T.exec T.init (sim.run S.init as) = some (sim.view s) := by
  rw [← sim.view_init]
  exact sim.exec_run sim.inv_init he

/-- The labels of the run below are those of its steps. -/
theorem forall_mem_run {C : κ → Prop} (he : S.exec s as = some s') :
    (∀ b ∈ sim.run s as, C b) ↔ S.Along (fun s a => ∀ b ∈ sim.steps s a, C b) s as := by
  induction as generalizing s with
  | nil => exact iff_of_true nofun trivial
  | cons a as ih =>
      obtain ⟨t, ht, hr⟩ := S.exec_cons_eq_some.1 he
      simp only [sim.run_cons ht, TransitionSystem.Along, ht, Option.some.injEq, forall_eq',
        List.forall_mem_append, ih hr]

/-- What each step below meets, the run below meets. -/
theorem along_run {D : τ → κ → Prop} (hs : sim.Inv s) (he : S.exec s as = some s')
    (hD : ∀ s a s', sim.Inv s → S.step s a = some s' → T.Along D (sim.view s) (sim.steps s a)) :
    T.Along D (sim.view s) (sim.run s as) := by
  induction as generalizing s with
  | nil => trivial
  | cons a as ih =>
      obtain ⟨t, ht, hr⟩ := S.exec_cons_eq_some.1 he
      rw [sim.run_cons ht, TransitionSystem.along_append]
      refine ⟨hD s a t hs ht, fun u hu => ?_⟩
      obtain rfl := Option.some.inj ((sim.view_step s a t hs ht).symm.trans hu)
      exact ih (sim.inv_step s a t hs ht) hr

end Simulation
end Rszero
