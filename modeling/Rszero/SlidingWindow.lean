import Mathlib.Data.List.Induction
import Mathlib.Order.Monotone.Defs
import Mathlib.Tactic.Common

/-!
# Incrementally pruned windows

Entries carry a time, and appending an entry first discards what lies before the cutoff of its
time. When times do not decrease, the entries kept are those of the whole history that the newest
cutoff admits: what an earlier append discarded could never count again.
-/

namespace Rszero.SlidingWindow

variable {α τ : Type*} [Preorder τ] [DecidableLE τ] (time : α → τ) (cutoff : τ → τ)

def admitted (now : τ) (es : List α) : List α :=
  es.filter (fun x => cutoff now ≤ time x)

def push (w : List α) (e : α) : List α :=
  admitted time cutoff (time e) w ++ [e]

def retained (es : List α) : List α :=
  es.foldl (push time cutoff) []

@[simp] theorem retained_nil : retained time cutoff ([] : List α) = [] := rfl

@[simp] theorem retained_concat (es : List α) (e : α) :
    retained time cutoff (es ++ [e]) = push time cutoff (retained time cutoff es) e := by
  simp [retained]

@[simp] theorem admitted_append (now : τ) (es fs : List α) :
    admitted time cutoff now (es ++ fs) =
      admitted time cutoff now es ++ admitted time cutoff now fs := by
  simp [admitted]

variable {time cutoff}

theorem admitted_admitted (hmono : Monotone cutoff) {s t : τ} (hst : s ≤ t) (es : List α) :
    admitted time cutoff t (admitted time cutoff s es) = admitted time cutoff t es := by
  unfold admitted
  rw [List.filter_filter]
  apply List.filter_congr
  intro x _
  have hle : cutoff t ≤ time x → cutoff s ≤ time x := (hmono hst).trans
  by_cases hx : cutoff t ≤ time x <;> simp [hx, hle]

/-- The window after an append is the part of the whole history that the newest cutoff admits. -/
theorem retained_eq_admitted (hmono : Monotone cutoff) (hcut : ∀ t, cutoff t ≤ t)
    (es : List α) (e : α) (hsort : (es ++ [e]).Pairwise (fun x y => time x ≤ time y)) :
    retained time cutoff (es ++ [e]) = admitted time cutoff (time e) (es ++ [e]) := by
  have hself : admitted time cutoff (time e) [e] = [e] := by simp [admitted, hcut]
  rw [retained_concat, push, admitted_append, hself]
  congr 1
  induction es using List.reverseRecOn generalizing e with
  | nil => rfl
  | append_singleton es d ih =>
      have hd : (es ++ [d]).Pairwise (fun x y => time x ≤ time y) :=
        (List.pairwise_append.1 hsort).1
      have hde : time d ≤ time e :=
        (List.pairwise_append.1 hsort).2.2 d (by simp) e (by simp)
      have hdself : admitted time cutoff (time d) [d] = [d] := by simp [admitted, hcut]
      have hprev : retained time cutoff (es ++ [d]) =
          admitted time cutoff (time d) (es ++ [d]) := by
        rw [retained_concat, push, ih d hd hdself, admitted_append, hdself]
      rw [hprev, admitted_admitted hmono hde]

end Rszero.SlidingWindow
