import Mathlib.Data.List.Count
import Mathlib.Tactic.Common

/-!
# Counters of fixed windows

A counter admits up to `q` times in a window of one period, and a new window begins with the first
request after the end of the last. A period meets two windows at most, and if it meets two, it
begins after the first of them: it sees at most `2 * q - 1` admissions.
-/

namespace Rszero.FixedWindow

def within (period a : ℕ) (admissions : List ℕ) : ℕ :=
  admissions.countP (fun t => a ≤ t ∧ t ≤ a + period)

def lately (period now : ℕ) (admissions : List ℕ) : ℕ :=
  admissions.countP (fun t => t ≤ now ∧ now ≤ t + period)

theorem lately_cons (period now t : ℕ) (admissions : List ℕ) :
    lately period now admissions ≤ lately period now (t :: admissions) :=
  (List.sublist_cons_self t admissions).countP_le

/-- The counter after these admissions: `count` of them since the window began at `start`. -/
structure Counted (period q : ℕ) (admissions : List ℕ) (start count : ℕ) : Prop where
  le_end : ∀ t ∈ admissions, t ≤ start + period
  count_eq : admissions.countP (fun t => start ≤ t) = count
  count_le : count ≤ q
  first : admissions.countP (fun t => start < t) ≤ count - 1
  before : admissions.countP (fun t => t < start ∧ start ≤ t + period) ≤ q - 1
  spread : ∀ a, within period a admissions ≤ 2 * q - 1

section

variable {period q start count now : ℕ} {admissions : List ℕ}

theorem counted_nil (period q now : ℕ) : Counted period q [] now 0 where
  le_end := by simp
  count_eq := rfl
  count_le := Nat.zero_le q
  first := Nat.le_refl 0
  before := Nat.zero_le _
  spread _ := Nat.zero_le _

/-- Of the admissions in a period that ends in the window, those before the window are of the
period before it. -/
theorem Counted.within_le (h : Counted period q admissions start count) {a : ℕ}
    (ha : start ≤ a + period) : within period a admissions ≤ q - 1 + count := by
  have hsplit : within period a admissions ≤
      admissions.countP (fun t => t < start ∧ start ≤ t + period) +
        admissions.countP (fun t => start ≤ t) := by
    unfold within
    rw [List.countP_eq_countP_filter_add admissions _ (fun t => decide (t < start))]
    simp only [List.countP_filter]
    refine Nat.add_le_add (List.countP_mono_left ?_) (List.countP_mono_left ?_)
    · intro t _ ht
      simp only [Bool.and_eq_true, decide_eq_true_eq] at ht ⊢
      omega
    · intro t _ ht
      simp only [Bool.and_eq_true, decide_eq_true_eq, Bool.not_eq_true', decide_eq_false_iff_not]
        at ht ⊢
      omega
  have hbefore := h.before
  rw [h.count_eq] at hsplit
  omega

theorem Counted.admit (h : Counted period q admissions start count) (hstart : start ≤ now)
    (hnow : now ≤ start + period) (hcount : count < q) (hfirst : count = 0 → now = start) :
    Counted period q (now :: admissions) start (count + 1) where
  le_end := List.forall_mem_cons.2 ⟨hnow, h.le_end⟩
  count_eq := by
    rw [List.countP_cons_of_pos (by simpa using hstart), h.count_eq]
  count_le := hcount
  first := by
    have hle := h.first
    by_cases hlate : start < now
    · rw [List.countP_cons_of_pos (by simpa using hlate)]
      omega
    · rw [List.countP_cons_of_neg (by simpa using hlate)]
      omega
  before := by
    rw [List.countP_cons_of_neg (by simp only [decide_eq_true_eq]; omega)]
    exact h.before
  spread a := by
    by_cases ha : a ≤ now ∧ now ≤ a + period
    · have hle := h.within_le (a := a) (by omega)
      rw [within, List.countP_cons_of_pos (by simpa using ha)]
      unfold within at hle
      omega
    · rw [within, List.countP_cons_of_neg (by simpa using ha)]
      exact h.spread a

theorem Counted.renew (h : Counted period q admissions start count)
    (hnow : start + period < now) : Counted period q admissions now 0 where
  le_end := by
    intro t ht
    have hle := h.le_end t ht
    omega
  count_eq := by
    refine List.countP_eq_zero.2 (fun t ht => ?_)
    have hle := h.le_end t ht
    simp only [decide_eq_true_eq]
    omega
  count_le := Nat.zero_le q
  first := by
    refine Nat.le_of_eq (List.countP_eq_zero.2 (fun t ht => ?_))
    have hle := h.le_end t ht
    simp only [decide_eq_true_eq]
    omega
  before := by
    have hmono : admissions.countP (fun t => t < now ∧ now ≤ t + period) ≤
        admissions.countP (fun t => start < t) := by
      refine List.countP_mono_left (fun t _ ht => ?_)
      simp only [decide_eq_true_eq] at ht ⊢
      omega
    have hfirst := h.first
    have hle := h.count_le
    omega
  spread := h.spread

/-- What is counted in a window was admitted in the period that ends now. -/
theorem Counted.count_le_lately (h : Counted period q admissions start count)
    (hadmissions : ∀ t ∈ admissions, t ≤ now) (hnow : now ≤ start + period) :
    count ≤ lately period now admissions := by
  rw [← h.count_eq]
  refine List.countP_mono_left (fun t ht hstart => ?_)
  have hle := hadmissions t ht
  simp only [decide_eq_true_eq] at hstart ⊢
  omega

end

end Rszero.FixedWindow
