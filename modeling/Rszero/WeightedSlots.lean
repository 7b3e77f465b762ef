import Mathlib.Algebra.BigOperators.Group.Finset.Basic
import Mathlib.Algebra.Group.Action.Defs
import Mathlib.Algebra.Order.BigOperators.Group.Finset
import Mathlib.Data.Int.CardIntervalMod
import Mathlib.Order.Interval.Finset.Nat

/-!
# Slots by weight

A list of weights cuts the numbers below its sum into bands, one for each weight and as long as the
weight. A number far above is reduced modulo the sum, and each band gets its share of such numbers.
When a band is widened, and when a weight is added at the end, the slots behind it move up; what
becomes of a number is then a question of the boundaries between its old slot and its new one.
-/

namespace Rszero.WeightedSlots

def before (ws : List ℕ) (i : ℕ) : ℕ := (ws.take i).sum

def pick : List ℕ → ℕ → Option ℕ
  | [], _ => none
  | w :: ws, s => if s < w then some 0 else (pick ws (s - w)).map (· + 1)

variable {ws ws' : List ℕ} {d h i j k s t w : ℕ}

@[simp] theorem before_zero (ws : List ℕ) : before ws 0 = 0 := rfl

@[simp] theorem before_cons_succ (w : ℕ) (ws : List ℕ) (i : ℕ) :
    before (w :: ws) (i + 1) = w + before ws i := by
  simp [before]

theorem before_of_length_le (h : ws.length ≤ i) : before ws i = ws.sum := by
  rw [before, List.take_of_length_le h]

theorem before_succ (hi : ws[i]? = some w) : before ws (i + 1) = before ws i + w := by
  rw [before, before, List.take_add_one, hi, List.sum_append]
  simp

theorem before_le_succ (ws : List ℕ) (i : ℕ) : before ws i ≤ before ws (i + 1) := by
  cases hi : ws[i]? with
  | none =>
      have hlength : ws.length ≤ i := List.getElem?_eq_none_iff.1 hi
      rw [before_of_length_le hlength, before_of_length_le (by omega)]
  | some w => rw [before_succ hi]; omega

theorem before_mono (ws : List ℕ) : Monotone (before ws) :=
  monotone_nat_of_le_succ (before_le_succ ws)

theorem pick_eq_some_iff : pick ws s = some i ↔ before ws i ≤ s ∧ s < before ws (i + 1) := by
  induction ws generalizing s i with
  | nil => simp [pick, before]
  | cons w ws ih =>
      rw [pick]
      cases i with
      | zero =>
          simp only [before_zero, before_cons_succ, Nat.add_zero, Nat.zero_le, true_and]
          split_ifs with hs
          · exact iff_of_true rfl hs
          · refine iff_of_false (fun hmap => ?_) hs
            obtain ⟨j, -, hj⟩ := Option.map_eq_some_iff.1 hmap
            omega
      | succ i =>
          rw [before_cons_succ, before_cons_succ]
          split_ifs with hs
          · refine iff_of_false (fun hzero => ?_) (by omega)
            exact absurd (Option.some.inj hzero) (by omega)
          · rw [Option.map_eq_some_iff]
            have hband : w + before ws i ≤ s ∧ s < w + before ws (i + 1) ↔
                before ws i ≤ s - w ∧ s - w < before ws (i + 1) := by omega
            rw [hband, ← ih]
            simp

theorem exists_pick (hs : s < ws.sum) : ∃ i < ws.length, pick ws s = some i := by
  induction ws generalizing s with
  | nil => exact absurd hs (Nat.not_lt_zero s)
  | cons w ws ih =>
      rw [List.sum_cons] at hs
      rw [pick]
      split_ifs with hw
      · exact ⟨0, Nat.zero_lt_succ _, rfl⟩
      · obtain ⟨i, hi, hpick⟩ := ih (by omega : s - w < ws.sum)
        exact ⟨i + 1, Nat.succ_lt_succ hi, by rw [hpick]; rfl⟩

theorem lt_length_of_pick (hpick : pick ws s = some i) : i < ws.length := by
  by_contra hi
  obtain ⟨hle, hlt⟩ := pick_eq_some_iff.1 hpick
  rw [before_of_length_le (by omega)] at hle hlt
  omega

theorem filter_pick (hi : i < ws.length) :
    (Finset.range ws.sum).filter (fun s => pick ws s = some i) =
      Finset.Ico (before ws i) (before ws (i + 1)) := by
  ext s
  have hsum : before ws (i + 1) ≤ ws.sum := by
    rw [← before_of_length_le (le_refl ws.length)]
    exact before_mono ws hi
  rw [Finset.mem_filter, Finset.mem_range, Finset.mem_Ico, pick_eq_some_iff]
  omega

/-- Each band has as many slots as its weight. -/
theorem card_filter_pick (hi : ws[i]? = some w) :
    ((Finset.range ws.sum).filter (fun s => pick ws s = some i)).card = w := by
  obtain ⟨hlt, -⟩ := List.getElem?_eq_some_iff.1 hi
  rw [filter_pick hlt, Nat.card_Ico, before_succ hi]
  omega

theorem card_filter_mod (n : ℕ) {m : ℕ} (hs : s < m) :
    n / m ≤ ((Finset.range n).filter (fun h => h % m = s)).card ∧
      ((Finset.range n).filter (fun h => h % m = s)).card ≤ (n + m - 1) / m := by
  have hcount : ((Finset.range n).filter (fun h => h % m = s)).card =
      n / m + if s % m < n % m then 1 else 0 := by
    rw [← Nat.count_modEq_card n (by omega), Nat.count_eq_card_filter_range]
    refine congrArg Finset.card (Finset.filter_congr (fun h _ => ?_))
    rw [Nat.ModEq, Nat.mod_eq_of_lt hs]
  have hdiv : n / m * m + n % m = n := Nat.div_add_mod' n m
  rw [hcount]
  split_ifs with hrest
  · refine ⟨Nat.le_succ _, ?_⟩
    rw [Nat.le_div_iff_mul_le (by omega), Nat.add_mul]
    omega
  · refine ⟨le_rfl, ?_⟩
    exact Nat.div_le_div_right (by omega)

/-- Of the numbers below `n`, a band gets its weight times the share of a slot. -/
theorem card_filter_pick_mod (n : ℕ) (hi : ws[i]? = some w) :
    w * (n / ws.sum) ≤ ((Finset.range n).filter (fun h => pick ws (h % ws.sum) = some i)).card ∧
      ((Finset.range n).filter (fun h => pick ws (h % ws.sum) = some i)).card ≤
        w * ((n + ws.sum - 1) / ws.sum) := by
  have hband (r : ℕ) : pick ws r = some i ↔ r ∈ Finset.Ico (before ws i) (before ws (i + 1)) := by
    rw [pick_eq_some_iff, Finset.mem_Ico]
  have hfiber : ((Finset.range n).filter (fun h => pick ws (h % ws.sum) = some i)).card =
      ∑ s ∈ Finset.Ico (before ws i) (before ws (i + 1)),
        ((Finset.range n).filter (fun h => h % ws.sum = s)).card := by
    rw [Finset.card_eq_sum_card_fiberwise (f := fun h => h % ws.sum)
      (t := Finset.Ico (before ws i) (before ws (i + 1)))]
    · refine Finset.sum_congr rfl (fun s hs => congrArg Finset.card ?_)
      rw [Finset.filter_filter]
      refine Finset.filter_congr (fun h _ => and_iff_right_of_imp ?_)
      rintro rfl
      exact (hband _).2 hs
    · intro h hh
      exact (hband _).1 (Finset.mem_filter.1 hh).2
  have hcard : (Finset.Ico (before ws i) (before ws (i + 1))).card = w := by
    rw [Nat.card_Ico, before_succ hi]
    omega
  have hlt (s : ℕ) (hs : s ∈ Finset.Ico (before ws i) (before ws (i + 1))) : s < ws.sum := by
    have hlast := before_mono ws (List.getElem?_eq_some_iff.1 hi).1
    rw [before_of_length_le (le_refl ws.length)] at hlast
    exact (Finset.mem_Ico.1 hs).2.trans_le hlast
  rw [hfiber, ← hcard, ← smul_eq_mul, ← smul_eq_mul]
  constructor
  · exact Finset.card_nsmul_le_sum _ _ _ (fun s hs => (card_filter_mod n (hlt s hs)).1)
  · exact Finset.sum_le_card_nsmul _ _ _ (fun s hs => (card_filter_mod n (hlt s hs)).2)

/-- A boundary between two bands lies between the slots. -/
def Separated (ws : List ℕ) (s t : ℕ) : Prop :=
  ∃ k ≤ ws.length, min s t < before ws k ∧ before ws k ≤ max s t

theorem separated_of_lt (hs : pick ws s = some i) (ht : pick ws t = some j) (hij : i < j) :
    Separated ws s t := by
  have hmono : before ws (i + 1) ≤ before ws j := before_mono ws hij
  obtain ⟨-, hslt⟩ := pick_eq_some_iff.1 hs
  obtain ⟨hle, -⟩ := pick_eq_some_iff.1 ht
  have hj := lt_length_of_pick ht
  exact ⟨i + 1, by omega, by omega, by omega⟩

theorem not_separated_self_band (hs : pick ws s = some i) (ht : pick ws t = some i) :
    ¬ Separated ws s t := by
  rintro ⟨k, -, hmin, hmax⟩
  rw [pick_eq_some_iff] at hs ht
  rcases Nat.lt_or_ge i k with hik | hki
  · have hmono : before ws (i + 1) ≤ before ws k := before_mono ws hik
    omega
  · have hmono : before ws k ≤ before ws i := before_mono ws hki
    omega

theorem separated_comm : Separated ws s t ↔ Separated ws t s := by
  rw [Separated, Separated, min_comm, max_comm]

/-- Two slots lie in the same band if and only if no boundary is between them. -/
theorem pick_eq_pick_iff (hs : s < ws.sum) (ht : t < ws.sum) :
    pick ws s = pick ws t ↔ ¬ Separated ws s t := by
  obtain ⟨i, -, hi⟩ := exists_pick hs
  obtain ⟨j, -, hj⟩ := exists_pick ht
  rw [hi, hj, Option.some.injEq]
  constructor
  · rintro rfl
    exact not_separated_self_band hi hj
  · intro hnone
    rcases lt_trichotomy i j with hlt | heq | hgt
    · exact absurd (separated_of_lt hi hj hlt) hnone
    · exact heq
    · exact absurd (separated_comm.1 (separated_of_lt hj hi hgt)) hnone

/-- The second list has `d` slots more, which come last in the band of `i`. -/
structure Widened (ws ws' : List ℕ) (i d : ℕ) : Prop where
  sum : ws'.sum = ws.sum + d
  pick : ∀ s, pick ws' s =
    if s < before ws (i + 1) then pick ws s
    else if s < before ws (i + 1) + d then some i else pick ws (s - d)

theorem Widened.cons (hws : Widened ws ws' i d) (w : ℕ) :
    Widened (w :: ws) (w :: ws') (i + 1) d where
  sum := by rw [List.sum_cons, List.sum_cons, hws.sum, Nat.add_assoc]
  pick s := by
    rw [before_cons_succ, WeightedSlots.pick, hws.pick (s - w)]
    rcases Nat.lt_or_ge s w with hw | hw
    · rw [if_pos hw, if_pos (by omega), WeightedSlots.pick, if_pos hw]
    · rw [if_neg (by omega)]
      rcases Nat.lt_or_ge s (w + before ws (i + 1)) with hfront | hback
      · rw [if_pos (by omega), if_pos hfront, WeightedSlots.pick, if_neg (by omega)]
      · rcases Nat.lt_or_ge s (w + before ws (i + 1) + d) with hnew | hbehind
        · rw [if_neg (by omega), if_pos (by omega), if_neg (by omega), if_pos hnew]
          rfl
        · have hsub : s - w - d = s - d - w := by omega
          rw [if_neg (by omega), if_neg (by omega), if_neg (by omega), if_neg (by omega),
            WeightedSlots.pick, if_neg (by omega), hsub]

theorem widened_set (hi : ws[i]? = some w) (d : ℕ) : Widened ws (ws.set i (w + d)) i d := by
  induction ws generalizing i with
  | nil => cases hi
  | cons v ws ih =>
      cases i with
      | zero =>
          obtain rfl := Option.some.inj hi
          refine ⟨by simp [Nat.add_right_comm], fun s => ?_⟩
          have hsub : s - (v + d) = s - d - v := by omega
          simp only [List.set_cons_zero, pick, before_cons_succ, before_zero, Nat.add_zero, hsub]
          split_ifs <;> first | rfl | omega
      | succ i => exact (ih hi).cons v

theorem widened_append (ws : List ℕ) (d : ℕ) : Widened ws (ws ++ [d]) ws.length d := by
  induction ws with
  | nil => exact ⟨by simp, fun s => by simp [pick, before]⟩
  | cons w ws ih => exact ih.cons w

/-- The new slot of `h` is in the wider band, or no boundary separates the slot that it was before
from the old slot of `h`. -/
def Keeps (ws : List ℕ) (i d h : ℕ) : Prop :=
  (before ws i ≤ h % (ws.sum + d) ∧ h % (ws.sum + d) < before ws (i + 1) + d) ∨
    ¬ Separated ws (h % ws.sum)
      (if h % (ws.sum + d) < before ws i then h % (ws.sum + d) else h % (ws.sum + d) - d)

/-- A number goes to the wider band, or stays where it was, if and only if its slots keep it. -/
theorem keeps_iff (hws : Widened ws ws' i d) (hpos : 0 < ws.sum) (h : ℕ) :
    pick ws' (h % ws'.sum) = some i ∨ pick ws' (h % ws'.sum) = pick ws (h % ws.sum) ↔
      Keeps ws i d h := by
  have hold : h % ws.sum < ws.sum := Nat.mod_lt h hpos
  have hnew : h % (ws.sum + d) < ws.sum + d := Nat.mod_lt h (by omega)
  rw [hws.sum, hws.pick, Keeps]
  generalize h % ws.sum = s at hold
  generalize h % (ws.sum + d) = t at hnew
  rcases Nat.lt_or_ge t (before ws i) with hfront | hi
  · -- in front of the wider band
    have hmono := before_le_succ ws i
    have hne : pick ws t ≠ some i := fun hpick => by
      have := (pick_eq_some_iff.1 hpick).1
      omega
    have htlt : t < ws.sum := by
      have hle : before ws i ≤ before ws (max i ws.length) := before_mono ws (le_max_left _ _)
      rw [before_of_length_le (le_max_right _ _)] at hle
      omega
    rw [if_pos (by omega), if_pos hfront, or_iff_right hne, eq_comm, pick_eq_pick_iff hold htlt,
      or_iff_right (by omega)]
  · rcases Nat.lt_or_ge t (before ws (i + 1) + d) with hband | hbehind
    · -- in the wider band
      refine iff_of_true (.inl ?_) (.inl ⟨hi, hband⟩)
      split_ifs with hlt
      · exact pick_eq_some_iff.2 ⟨hi, hlt⟩
      · rfl
    · -- behind the wider band
      have hne : pick ws (t - d) ≠ some i := fun hpick => by
        have := (pick_eq_some_iff.1 hpick).2
        omega
      rw [if_neg (by omega), if_neg (by omega), if_neg (by omega), or_iff_right hne, eq_comm,
        pick_eq_pick_iff hold (by omega), or_iff_right (by omega)]

end Rszero.WeightedSlots
