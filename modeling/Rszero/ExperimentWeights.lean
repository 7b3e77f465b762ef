import Rszero.Experiment
import Rszero.WeightedSlots

/-!
# The weights of an experiment

The loop of `assign` finds the band of the user's slot among those of the weights, so a variant has
as many slots as its weight, and its share of all the hashes.
-/

namespace Rszero.Experiments

open WeightedSlots

namespace Experiment

def weights (e : Experiment) : List ℕ := e.variants.map (fun v => v.weight.toNat)

def weight (e : Experiment) : ℕ := e.weights.sum

end Experiment

theorem checkedAdd_eq {a b : UInt32} (h : a.toNat + b.toNat < 2 ^ 32) :
    ∃ c, checkedAdd a b = some c ∧ c.toNat = a.toNat + b.toNat := by
  refine ⟨a + b, if_pos h, ?_⟩
  rw [UInt32.toNat_add, Nat.mod_eq_of_lt h]

theorem checkedAdd_eq_none {a b : UInt32} (h : 2 ^ 32 ≤ a.toNat + b.toNat) :
    checkedAdd a b = none := if_neg (Nat.not_lt.2 h)

namespace Experiment

section Loops

variable {vs : List Variant} {sum slot cumulative : UInt32} {i j : ℕ}

theorem foldlM_checkedAdd (h : sum.toNat + (vs.map (fun v => v.weight.toNat)).sum < 2 ^ 32) :
    ∃ total, vs.foldlM (fun sum v => checkedAdd sum v.weight.toUInt32) sum = some total ∧
      total.toNat = sum.toNat + (vs.map (fun v => v.weight.toNat)).sum := by
  induction vs generalizing sum with
  | nil => exact ⟨sum, rfl, rfl⟩
  | cons v vs ih =>
      rw [List.map_cons, List.sum_cons] at h ⊢
      have hweight : v.weight.toUInt32.toNat = v.weight.toNat := UInt8.toNat_toUInt32 _
      obtain ⟨c, hc, hcval⟩ : ∃ c, checkedAdd sum v.weight.toUInt32 = some c ∧
          c.toNat = sum.toNat + v.weight.toUInt32.toNat := checkedAdd_eq (by omega)
      obtain ⟨total, htotal, hval⟩ := @ih c (by omega)
      refine ⟨total, ?_, by omega⟩
      rw [List.foldlM_cons, hc]
      exact htotal

theorem foldlM_checkedAdd_eq_none
    (h : 2 ^ 32 ≤ sum.toNat + (vs.map (fun v => v.weight.toNat)).sum) :
    vs.foldlM (fun sum v => checkedAdd sum v.weight.toUInt32) sum = none := by
  induction vs generalizing sum with
  | nil => exact absurd h (Nat.not_le.2 (UInt32.toNat_lt sum))
  | cons v vs ih =>
      rw [List.map_cons, List.sum_cons] at h
      have hweight : v.weight.toUInt32.toNat = v.weight.toNat := UInt8.toNat_toUInt32 _
      rw [List.foldlM_cons]
      rcases Nat.lt_or_ge (sum.toNat + v.weight.toUInt32.toNat) (2 ^ 32) with hlt | hge
      · obtain ⟨c, hc, hcval⟩ := checkedAdd_eq hlt
        rw [hc]
        exact @ih c (by omega)
      · rw [checkedAdd_eq_none hge]
        rfl

/-- The cumulative sum does not overflow, and the loop ends in the band of the slot. -/
theorem selectFrom_of_pick
    (hfit : cumulative.toNat + (vs.map (fun v => v.weight.toNat)).sum < 2 ^ 32)
    (hle : cumulative.toNat ≤ slot.toNat)
    (hpick : pick (vs.map (fun v => v.weight.toNat)) (slot.toNat - cumulative.toNat) = some j) :
    selectFrom slot cumulative i vs = some (.selected (i + j)) := by
  induction vs generalizing cumulative i j with
  | nil => cases hpick
  | cons v vs ih =>
      rw [List.map_cons, List.sum_cons] at hfit
      rw [List.map_cons, pick] at hpick
      have hweight : v.weight.toUInt32.toNat = v.weight.toNat := UInt8.toNat_toUInt32 _
      obtain ⟨c, hc, hcval⟩ : ∃ c, checkedAdd cumulative v.weight.toUInt32 = some c ∧
          c.toNat = cumulative.toNat + v.weight.toUInt32.toNat := checkedAdd_eq (by omega)
      have hstep : selectFrom slot cumulative i (v :: vs) =
          if slot < c then some (.selected i) else selectFrom slot c (i + 1) vs := by
        rw [selectFrom, hc]
        rfl
      rw [hstep]
      split_ifs at hpick with hband
      · obtain rfl := Option.some.inj hpick
        exact if_pos (UInt32.lt_iff_toNat_lt.2 (by omega))
      · obtain ⟨k, hk, rfl⟩ := Option.map_eq_some_iff.1 hpick
        have hnot : ¬ slot < c := fun h => by
          have := UInt32.lt_iff_toNat_lt.1 h
          omega
        have hsub : slot.toNat - cumulative.toNat - v.weight.toNat = slot.toNat - c.toNat := by
          omega
        rw [hsub] at hk
        rw [if_neg hnot, ih (by omega) (by omega) hk, Nat.add_right_comm, Nat.add_assoc]

end Loops

section Total

variable {e : Experiment} {hash : UInt32} {i : ℕ}

theorem variants_of_weight_pos (hpos : 0 < e.weight) : e.variants.isEmpty = false := by
  cases hvs : e.variants with
  | nil => simp [weight, weights, hvs] at hpos
  | cons v vs => rfl

theorem exitFor_of_pick (henabled : e.enabled) (hpos : 0 < e.weight) (hfit : e.weight < 2 ^ 32)
    (hpick : pick e.weights (hash.toNat % e.weight) = some i) :
    e.exitFor hash = some (.selected i) := by
  obtain ⟨total, htotal, hval⟩ : ∃ total, e.totalWeight = some total ∧
      total.toNat = (0 : UInt32).toNat + e.weight :=
    foldlM_checkedAdd (by rw [UInt32.toNat_zero]; exact (Nat.zero_add _).trans_lt hfit)
  rw [UInt32.toNat_zero, Nat.zero_add] at hval
  have hne : total ≠ 0 := by
    rintro rfl
    rw [UInt32.toNat_zero] at hval
    omega
  have hselect : selectFrom (hash % total) 0 0 e.variants = some (.selected (0 + i)) := by
    apply selectFrom_of_pick
    · rw [UInt32.toNat_zero, Nat.zero_add]
      exact hfit
    · exact Nat.zero_le _
    · rw [UInt32.toNat_mod, UInt32.toNat_zero, Nat.sub_zero, hval]
      exact hpick
  rw [exitFor, variants_of_weight_pos hpos, henabled, htotal]
  rw [Nat.zero_add] at hselect
  exact (if_neg hne).trans hselect

/-- Which variant an experiment with a total weight selects. -/
theorem exitFor_eq_selected_iff (henabled : e.enabled) (hpos : 0 < e.weight)
    (hfit : e.weight < 2 ^ 32) :
    e.exitFor hash = some (.selected i) ↔ pick e.weights (hash.toNat % e.weight) = some i := by
  obtain ⟨j, -, hj⟩ : ∃ j < e.weights.length, pick e.weights (hash.toNat % e.weight) = some j :=
    exists_pick (Nat.mod_lt _ hpos)
  rw [exitFor_of_pick henabled hpos hfit hj, hj]
  simp

theorem weights_getElem? {v : Variant} (hi : e.variants[i]? = some v) :
    e.weights[i]? = some v.weight.toNat := by
  rw [weights, List.getElem?_map, hi]
  rfl

theorem filter_exitFor {n : ℕ} (henabled : e.enabled) (hpos : 0 < e.weight)
    (hfit : e.weight < 2 ^ 32) (hn : n ≤ 2 ^ 32) (i : ℕ) :
    (Finset.range n).filter (fun h => e.exitFor (UInt32.ofNat h) = some (.selected i)) =
      (Finset.range n).filter (fun h => pick e.weights (h % e.weights.sum) = some i) := by
  refine Finset.filter_congr (fun h hh => ?_)
  have hlt : h < 2 ^ 32 := (Finset.mem_range.1 hh).trans_le hn
  rw [exitFor_eq_selected_iff henabled hpos hfit, UInt32.toNat_ofNat_of_lt' hlt]
  rfl

/-- Of the hashes below the total weight, a variant gets exactly its weight, so that all hashes
select some variant, which `assign` returns, and none selects one without weight. Of all hashes it
gets its share. -/
theorem weights_are_exact (henabled : e.enabled) (hpos : 0 < e.weight) (hfit : e.weight < 2 ^ 32) :
    (∀ hash, ∃ i v, e.exitFor hash = some (.selected i) ∧ e.variants[i]? = some v ∧
      0 < v.weight.toNat ∧ ∀ user_id, e.userHash user_id = hash → e.assign user_id = some v) ∧
    ∀ i v, e.variants[i]? = some v →
      ((Finset.range e.weight).filter
        (fun h => e.exitFor (UInt32.ofNat h) = some (.selected i))).card = v.weight.toNat ∧
      v.weight.toNat * (2 ^ 32 / e.weight) ≤ ((Finset.range (2 ^ 32)).filter
        (fun h => e.exitFor (UInt32.ofNat h) = some (.selected i))).card ∧
      ((Finset.range (2 ^ 32)).filter
        (fun h => e.exitFor (UInt32.ofNat h) = some (.selected i))).card ≤
          v.weight.toNat * ((2 ^ 32 + e.weight - 1) / e.weight) := by
  constructor
  · intro hash
    obtain ⟨i, hi, hpick⟩ : ∃ i < e.weights.length,
        pick e.weights (hash.toNat % e.weight) = some i := exists_pick (Nat.mod_lt _ hpos)
    rw [weights, List.length_map] at hi
    have hvariant : e.variants[i]? = some e.variants[i] := List.getElem?_eq_getElem hi
    have hexit := exitFor_of_pick henabled hpos hfit hpick
    refine ⟨i, e.variants[i], hexit, hvariant, ?_, fun user_id huser => ?_⟩
    · obtain ⟨hle, hlt⟩ := pick_eq_some_iff.1 hpick
      rw [before_succ (weights_getElem? hvariant)] at hlt
      omega
    · rw [assign, huser, hexit]
      exact hvariant
  · intro i v hi
    have hweight := weights_getElem? hi
    rw [filter_exitFor henabled hpos hfit le_rfl, filter_exitFor henabled hpos hfit hfit.le]
    refine ⟨?_, card_filter_pick_mod (2 ^ 32) hweight⟩
    rw [← card_filter_pick hweight]
    refine congrArg Finset.card (Finset.filter_congr (fun h hh => ?_))
    have hlt : h < e.weights.sum := Finset.mem_range.1 hh
    rw [Nat.mod_eq_of_lt hlt]

end Total

def checkout : Experiment :=
  .new "checkout" [.control "old", .treatment "paused" 0, .treatment "new" 30]

theorem weights_are_exact_checkout :
    (∀ hash, ∃ i v, checkout.exitFor hash = some (.selected i) ∧
      checkout.variants[i]? = some v ∧ 0 < v.weight.toNat ∧
        ∀ user_id, checkout.userHash user_id = hash → checkout.assign user_id = some v) ∧
    ((Finset.range 80).filter
      (fun h => checkout.exitFor (UInt32.ofNat h) = some (.selected 2))).card = 30 := by
  have hexact := weights_are_exact (e := checkout) rfl (by decide) (by decide)
  exact ⟨hexact.1, (hexact.2 2 (.treatment "new" 30) rfl).1⟩

end Experiment

end Rszero.Experiments
