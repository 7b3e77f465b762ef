import Rszero.ExperimentWeights

/-!
# Raising the weight of a variant

A new total weight is a new modulus, so a user's slot moves with the hash and not with the bands.
The user keeps to the variants that should be kept exactly when no boundary comes between the old
slot and the place where the new slot was before.
-/

namespace Rszero.Experiments

open WeightedSlots

namespace Experiment

def raise (e : Experiment) (i : ℕ) (weight : UInt8) : Experiment :=
  { e with variants := e.variants.modify i (fun v => { v with weight := weight }) }

def append (e : Experiment) (v : Variant) : Experiment := { e with variants := e.variants ++ [v] }

def place (e : Experiment) (user_id : String) : Option ℕ :=
  (e.exitFor (e.userHash user_id)).bind e.position

/-- The user does not leave the variant with index `i`, and does not change between two others. -/
def Sticky (e e' : Experiment) (i : ℕ) (user_id : String) : Prop :=
  ∃ old new, e.place user_id = some old ∧ e'.place user_id = some new ∧ (old = i → new = i) ∧
    (old ≠ i → new ≠ i → new = old)

variable {e e' : Experiment} {d i : ℕ} {v : Variant} {weight : UInt8}

theorem place_eq (henabled : e.enabled) (hpos : 0 < e.weight) (hfit : e.weight < 2 ^ 32)
    (user_id : String) :
    e.place user_id = pick e.weights ((e.userHash user_id).toNat % e.weight) := by
  obtain ⟨j, -, hj⟩ : ∃ j < e.weights.length,
      pick e.weights ((e.userHash user_id).toNat % e.weight) = some j :=
    exists_pick (Nat.mod_lt _ hpos)
  rw [place, exitFor_of_pick henabled hpos hfit hj, hj]
  rfl

theorem place_eq_none (henabled : e.enabled) (hover : 2 ^ 32 ≤ e.weight) (user_id : String) :
    e.place user_id = none := by
  have htotal : e.totalWeight = none := by
    apply foldlM_checkedAdd_eq_none
    rw [UInt32.toNat_zero, Nat.zero_add]
    exact hover
  rw [place, exitFor, variants_of_weight_pos (by omega), henabled, htotal]
  rfl

/-- The totals fit into 32 bits, and the slots of the user's hash keep it. -/
def KeepsUser (e : Experiment) (i d : ℕ) (user_id : String) : Prop :=
  e.weight + d < 2 ^ 32 ∧ Keeps e.weights i d (e.userHash user_id).toNat

theorem sticky_iff (henabled : e.enabled) (hpos : 0 < e.weight) (henabled' : e'.enabled)
    (hname : e'.name = e.name) (hws : Widened e.weights e'.weights i d) (user_id : String) :
    Sticky e e' i user_id ↔ KeepsUser e i d user_id := by
  have hsum : e'.weight = e.weight + d := hws.sum
  rcases Nat.lt_or_ge (e.weight + d) (2 ^ 32) with hfit | hover
  · have hhash : e'.userHash user_id = e.userHash user_id := by rw [userHash, userHash, hname]
    have hnew : e'.place user_id = pick e'.weights ((e.userHash user_id).toNat % e'.weight) := by
      rw [place_eq henabled' (by omega) (by omega), hhash]
    have hold := place_eq henabled hpos (by omega : e.weight < 2 ^ 32) user_id
    have hkeeps := keeps_iff hws hpos (e.userHash user_id).toNat
    rw [KeepsUser, and_iff_right hfit, ← hkeeps]
    change _ ↔ pick e'.weights (_ % e'.weight) = _ ∨ pick e'.weights (_ % e'.weight) =
      pick e.weights (_ % e.weight)
    obtain ⟨old, -, hpick⟩ : ∃ j < e.weights.length,
      pick e.weights ((e.userHash user_id).toNat % e.weight) = some j :=
        exists_pick (Nat.mod_lt _ hpos)
    obtain ⟨new, -, hpick'⟩ : ∃ j < e'.weights.length,
      pick e'.weights ((e.userHash user_id).toNat % e'.weight) = some j :=
        exists_pick (Nat.mod_lt _ (by omega))
    rw [Sticky, hold, hnew, hpick, hpick']
    simp only [Option.some.injEq]
    constructor
    · rintro ⟨_, _, rfl, rfl, hkeep, hstay⟩
      by_cases hnewi : new = i
      · exact .inl hnewi
      · exact .inr (hstay (fun h => hnewi (hkeep h)) hnewi)
    · intro h
      refine ⟨old, new, rfl, rfl, ?_⟩
      omega
  · refine iff_of_false ?_ (fun h => absurd h.1 (Nat.not_lt.2 hover))
    rintro ⟨old, new, -, hnew, -⟩
    rw [place_eq_none henabled' (hsum ▸ hover)] at hnew
    cases hnew

theorem weights_raise (hi : e.variants[i]? = some v) (hle : v.weight ≤ weight) :
    Widened e.weights (e.raise i weight).weights i (weight.toNat - v.weight.toNat) := by
  have hle' := UInt8.le_iff_toNat_le.1 hle
  have hset : (e.raise i weight).weights =
      e.weights.set i (v.weight.toNat + (weight.toNat - v.weight.toNat)) := by
    rw [Nat.add_sub_cancel' hle', weights, raise, List.modify_eq_set_getElem?, hi]
    exact List.map_set
  rw [hset]
  exact widened_set (weights_getElem? hi) _

theorem weights_append (e : Experiment) (v : Variant) :
    Widened e.weights (e.append v).weights e.variants.length v.weight.toNat := by
  have happend : (e.append v).weights = e.weights ++ [v.weight.toNat] := List.map_append
  have hlength : e.weights.length = e.variants.length := List.length_map _
  rw [happend, ← hlength]
  exact widened_append _ _

/-- A user keeps to the variants when the weight of one is raised, or one is appended, if and only
if the totals fit into 32 bits and no boundary comes between the user's slots. -/
theorem sticky_iff_keepsUser (henabled : e.enabled) (hpos : 0 < e.weight) (user_id : String) :
    (∀ i v weight, e.variants[i]? = some v → v.weight ≤ weight →
      (Sticky e (e.raise i weight) i user_id ↔
        KeepsUser e i (weight.toNat - v.weight.toNat) user_id)) ∧
    ∀ v, Sticky e (e.append v) e.variants.length user_id ↔
      KeepsUser e e.variants.length v.weight.toNat user_id := by
  constructor
  · intro i v weight hi hle
    have henabled' : (e.raise i weight).enabled := henabled
    exact sticky_iff henabled hpos henabled' rfl (weights_raise hi hle) user_id
  · intro v
    have henabled' : (e.append v).enabled := henabled
    exact sticky_iff henabled hpos henabled' rfl (weights_append e v) user_id

def oldAndNew : Experiment := .new "checkout" [.control "old", .treatment "new" 50]

theorem sticky_iff_keepsUser_oldAndNew :
    (Sticky oldAndNew (oldAndNew.raise 1 60) 1 "user_3" ↔ KeepsUser oldAndNew 1 10 "user_3") ∧
      (Sticky oldAndNew (oldAndNew.append (.treatment "newer" 10)) 2 "user_3" ↔
        KeepsUser oldAndNew 2 10 "user_3") := by
  have hiff := sticky_iff_keepsUser (e := oldAndNew) rfl (by decide) "user_3"
  exact ⟨hiff.1 1 (.treatment "new" 50) 60 rfl (by decide), hiff.2 (.treatment "newer" 10)⟩

/-- The user leaves the new variant for the old one when the new one gets more weight, and also
when a third one is appended. -/
theorem not_sticky :
    ¬ Sticky oldAndNew (oldAndNew.raise 1 60) 1 "user_7" ∧
      ¬ Sticky oldAndNew (oldAndNew.append (.treatment "newer" 10)) 2 "user_7" := by
  have hold : oldAndNew.place "user_7" = some 1 := by decide
  have hraised : (oldAndNew.raise 1 60).place "user_7" = some 0 := by decide
  have happended : (oldAndNew.append (.treatment "newer" 10)).place "user_7" = some 0 := by decide
  constructor
  · rintro ⟨old, new, hplace, hplace', hkeep, -⟩
    obtain rfl := Option.some.inj (hold.symm.trans hplace)
    obtain rfl := Option.some.inj (hraised.symm.trans hplace')
    exact absurd (hkeep rfl) (by omega)
  · rintro ⟨old, new, hplace, hplace', -, hstay⟩
    obtain rfl := Option.some.inj (hold.symm.trans hplace)
    obtain rfl := Option.some.inj (happended.symm.trans hplace')
    exact absurd (hstay (by omega) (by omega)) (by omega)

end Experiment

end Rszero.Experiments
