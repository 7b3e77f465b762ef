import Rszero.TransitionSystem
import Mathlib.Algebra.BigOperators.Group.List.Basic
import Mathlib.Algebra.Order.Ring.Nat

/-!
# Potentials that pay for the steps of a run

Each step has a price. A step that does not lead to the goal is paid by what it takes off the
potential, or by the credit that it brings in. A run whose price exceeds the potential it starts
with and the credit it brings in has reached the goal.
-/

namespace Rszero.TransitionSystem

variable {σ ι : Type*}

/-- From `s` to `s'` the goal is kept, or the price is paid. -/
structure Paid (potential credit : σ → ℕ) (goal : σ → Prop) (price : ℕ) (s s' : σ) : Prop where
  stable : goal s → goal s'
  paid : ¬ goal s' → potential s' + price + credit s ≤ potential s + credit s'

section Rules

variable {potential credit : σ → ℕ} {goal : σ → Prop} {m n : ℕ} {s t s' : σ}

theorem Paid.refl (s : σ) : Paid potential credit goal 0 s s :=
  ⟨id, fun _ => by omega⟩

theorem Paid.trans (h : Paid potential credit goal m s t) (h' : Paid potential credit goal n t s') :
    Paid potential credit goal (m + n) s s' := by
  refine ⟨fun hs => h'.stable (h.stable hs), fun hs' => ?_⟩
  have hfirst := h.paid (fun ht => hs' (h'.stable ht))
  have hsecond := h'.paid hs'
  omega

/-- What cannot be paid reaches the goal. -/
theorem Paid.reaches (h : Paid potential credit goal n s s')
    (hn : potential s + credit s' < n + credit s) : goal s' := by
  by_contra hs'
  have hpaid := h.paid hs'
  omega

end Rules

variable {S : TransitionSystem σ ι}

theorem exec_paid {A : σ → ι → Prop} {I goal : σ → Prop} {price : ι → ℕ}
    {potential credit : σ → ℕ} (hI : ∀ s a s', I s → A s a → S.step s a = some s' → I s')
    (hpaid : ∀ s a s', I s → A s a → S.step s a = some s' →
      Paid potential credit goal (price a) s s') {s s' : σ} {run : List ι} (hs : I s)
    (he : S.exec s run = some s') (hA : S.Along A s run) :
    Paid potential credit goal (run.map price).sum s s' := by
  induction run generalizing s with
  | nil =>
      obtain rfl := Option.some.inj he
      exact .refl s
  | cons a run ih =>
      obtain ⟨t, ht, hr⟩ := S.exec_cons_eq_some.1 he
      rw [List.map_cons, List.sum_cons]
      exact (hpaid s a t hs hA.1 ht).trans (ih (hI s a t hs hA.1 ht) hr (hA.2 t ht))

end Rszero.TransitionSystem
