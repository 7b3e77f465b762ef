import Mathlib.Algebra.BigOperators.Group.List.Basic
import Mathlib.Algebra.Order.Ring.Nat
import Rszero.TransitionSystem

/-!
# Systems whose runs end

A system completes in `P` when its runs are bounded in length and one that cannot go on has reached
`P`. A measure that every step lowers gives the bound. Since the steps are labelled with all the
choices of the scheduler, no fairness is asked of it.
-/

namespace Rszero.TransitionSystem

variable {σ ι : Type*} (S : TransitionSystem σ ι)

def Final (s : σ) : Prop := ∀ a, S.step s a = none

structure Completes (P : σ → Prop) : Prop where
  bounded : ∃ N, ∀ as s, S.exec S.init as = some s → as.length ≤ N
  final : ∀ as s, S.exec S.init as = some s → S.Final s → P s

variable {S} {P : σ → Prop}

theorem exec_length_le {m : σ → ℕ} (hm : ∀ s a s', S.step s a = some s' → m s' < m s) {s s' : σ}
    {as : List ι} (he : S.exec s as = some s') : as.length ≤ m s := by
  induction as generalizing s with
  | nil => exact Nat.zero_le _
  | cons a as ih =>
      obtain ⟨t, ht, hr⟩ := (S.exec_cons_eq_some).1 he
      have htail := ih hr
      have hlt := hm s a t ht
      rw [List.length_cons]
      omega

/-- The rule for completion: a measure, an invariant, and what the invariant says of a final
state. -/
theorem completes_of_measure {m : σ → ℕ} {I : σ → Prop}
    (hm : ∀ s a s', S.step s a = some s' → m s' < m s) (hinit : I S.init)
    (hI : ∀ s a s', I s → S.step s a = some s' → I s') (hP : ∀ s, I s → S.Final s → P s) :
    S.Completes P where
  bounded := ⟨m S.init, fun _ _ he => exec_length_le hm he⟩
  final := fun _ s he hfinal => hP s (S.exec_invariant hI hinit he) hfinal

/-- Runs of bounded length that can all go on would be longer than the bound. -/
theorem Completes.exists_exec (h : S.Completes P) : ∃ as s, S.exec S.init as = some s ∧ P s := by
  obtain ⟨N, hN⟩ := h.bounded
  by_contra hnone
  have hlong (n : ℕ) : ∃ as s, S.exec S.init as = some s ∧ as.length = n := by
    induction n with
    | zero => exact ⟨[], S.init, rfl, rfl⟩
    | succ n ih =>
        obtain ⟨as, s, he, hlen⟩ := ih
        have hgoes : ¬ S.Final s := fun hfinal => hnone ⟨as, s, he, h.final as s he hfinal⟩
        obtain ⟨a, ha⟩ := not_forall.1 hgoes
        obtain ⟨s', hs'⟩ := Option.ne_none_iff_exists'.1 ha
        refine ⟨as ++ [a], s', S.exec_append he (S.exec_cons_eq_some.2 ⟨s', hs', rfl⟩), ?_⟩
        rw [List.length_append, hlen, List.length_singleton]
  obtain ⟨as, s, he, hlen⟩ := hlong (N + 1)
  have hle := hN as s he
  omega

/-- A system that completes in `P` reaches `P` only where its invariants hold. -/
theorem Completes.exists_invariant {I : σ → Prop} (h : S.Completes P) (hinit : I S.init)
    (hI : ∀ s a s', I s → S.step s a = some s' → I s') : ∃ s, I s ∧ P s := by
  obtain ⟨as, s, he, hp⟩ := h.exists_exec
  exact ⟨s, S.exec_invariant hI hinit he, hp⟩

/-- A sum over tasks changes as the one task that is replaced. -/
theorem sum_map_set {α : Type} (f : α → ℕ) {l : List α} {i : ℕ} {x : α} (h : l[i]? = some x)
    (y : α) : ((l.set i y).map f).sum + f x = (l.map f).sum + f y := by
  induction l generalizing i with
  | nil => cases h
  | cons z l ih =>
      cases i with
      | zero =>
          obtain rfl := Option.some.inj h
          rw [List.set_cons_zero, List.map_cons, List.map_cons, List.sum_cons, List.sum_cons]
          omega
      | succ i =>
          have htail := ih h
          rw [List.set_cons_succ, List.map_cons, List.map_cons, List.sum_cons, List.sum_cons]
          omega

theorem map_set_eq {α β : Type} (f : α → β) {l : List α} {i : ℕ} {x y : α} (h : l[i]? = some x)
    (hf : f y = f x) : (l.set i y).map f = l.map f := by
  obtain ⟨hi, rfl⟩ := List.getElem?_eq_some_iff.1 h
  have hlen : i < (l.map f).length := by rwa [List.length_map]
  have hget : (l.map f)[i] = f l[i] := List.getElem_map f
  rw [List.map_set, hf, ← hget, List.set_getElem_self]

end Rszero.TransitionSystem
