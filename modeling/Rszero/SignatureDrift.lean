import Mathlib.Algebra.Order.Group.Unbundled.Int
import Rszero.Signature

/-!
# The drift of a timestamp

The middleware compares the clock with the timestamp in 64 bits. It should do so as over the
integers, and a timestamp that is no number should never be near. The difference of two numbers of
64 bits need not be one, nor the amount of it, and a timestamp that is no number is read as zero.
-/

namespace Rszero.Signature

open Http

variable {Body : Type} {config : SignatureConfig} {now : ℕ} {timestamp : String} {a b ts : Int64}

def checkedSub (a b : Int64) : Option Int64 :=
  if -2 ^ 63 ≤ a.toInt - b.toInt ∧ a.toInt - b.toInt < 2 ^ 63 then some (a - b) else none

def checkedAbs (a : Int64) : Option Int64 := if a = Int64.minValue then none else some a.abs

/-- `(now - ts).abs()`; `none` is an overflow, which panics where it is checked. -/
def drift (now : ℕ) (ts : Int64) : Option Int64 := (checkedSub (Int64.ofNat now) ts).bind checkedAbs

def clock (now : ℕ) : ℤ := (Int64.ofNat now).toInt

/-- The check of the drift is the one over the integers, and no text passes that is no number. -/
structure DriftExact (config : SignatureConfig) (now : ℕ) (timestamp : String) : Prop where
  number : ∀ ts, parseI64 timestamp = some ts → (drift now ts).isSome ∧
    (InWindow config now timestamp ↔ |clock now - ts.toInt| ≤ config.max_drift_secs.toInt)
  text : parseI64 timestamp = none → ¬ InWindow config now timestamp

/-- The request is answered with the drift exactly when the timestamp is not near the clock. -/
theorem verify_eq_drift_iff (hash : String → UInt64) (json : SerdeJson Body) {req : Request Body}
    {p : Presented} (h : presented config req = some p) :
    verify hash json config now req = .error (rejection json "timestamp drift exceeded") ↔
      ¬ InWindow config now p.timestamp := by
  have hmsg : rejection json "invalid signature" ≠ rejection json "timestamp drift exceeded" := by
    intro heq
    have hbody := congrArg (fun res => json.fromText res.body) heq
    simp [rejection, Response.json, json.fromText_toText] at hbody
  rw [verify, h]
  by_cases hwindow : InWindow config now p.timestamp
  · simp only [hwindow, not_true_eq_false, if_false, iff_false]
    split_ifs
    · exact fun heq => hmsg (Except.error.inj heq)
    · nofun
  · simp only [hwindow, not_false_eq_true, if_true]

theorem clock_of_lt (h : now < 2 ^ 63) : clock now = now := Int64.toInt_ofNat_of_lt h

theorem toInt_sub (h : -2 ^ 63 ≤ a.toInt - b.toInt) (h' : a.toInt - b.toInt < 2 ^ 63) :
    (a - b).toInt = a.toInt - b.toInt := by
  rw [Int64.toInt_sub]
  exact Int.bmod_eq_of_le (by omega) (by omega)

theorem toInt_abs (h : a ≠ Int64.minValue) : a.abs.toInt = |a.toInt| := by
  have hmin : a.toBitVec ≠ BitVec.intMin 64 := fun heq => h (Int64.toBitVec_inj.1 heq)
  exact (BitVec.toInt_abs_eq_natAbs_of_ne_intMin hmin).trans (Int.natCast_natAbs _)

theorem eq_minValue_iff : a = Int64.minValue ↔ a.toInt = -2 ^ 63 := by
  rw [← Int64.toInt_inj, Int64.toInt_minValue]

/-- The amount of the difference is a number of 64 bits. -/
theorem isSome_drift_iff : (drift now ts).isSome ↔ |clock now - ts.toInt| < 2 ^ 63 := by
  rw [abs_lt, drift, checkedSub, ← clock]
  split_ifs with hfits
  · have hsub := toInt_sub hfits.1 hfits.2
    rw [Option.bind_some, checkedAbs]
    split_ifs with hmin
    · rw [eq_minValue_iff, hsub, ← clock] at hmin
      exact iff_of_false nofun (by omega)
    · rw [eq_minValue_iff, hsub, ← clock] at hmin
      exact iff_of_true rfl (by omega)
  · exact iff_of_false nofun (by omega)

/-- Where nothing overflows the check is the one over the integers. -/
theorem inWindow_iff (h : |clock now - ((parseI64 timestamp).getD 0).toInt| < 2 ^ 63) :
    InWindow config now timestamp ↔
      |clock now - ((parseI64 timestamp).getD 0).toInt| ≤ config.max_drift_secs.toInt := by
  rw [clock, abs_lt] at h
  have hsub := toInt_sub (a := Int64.ofNat now) (by omega) h.2
  have hmin : Int64.ofNat now - (parseI64 timestamp).getD 0 ≠ Int64.minValue := by
    rw [Ne, eq_minValue_iff, hsub]
    omega
  rw [InWindow, gt_iff_lt, Int64.lt_iff_toInt_lt, toInt_abs hmin, hsub, not_lt, clock]

/-- The amount of the least number is the least number, which is near. -/
theorem inWindow_of_minValue (hdrift : 0 ≤ config.max_drift_secs)
    (h : Int64.ofNat now - (parseI64 timestamp).getD 0 = Int64.minValue) :
    InWindow config now timestamp := by
  rw [InWindow, h, gt_iff_lt, Int64.lt_iff_toInt_lt, not_lt]
  exact le_trans (by decide) (Int64.le_iff_toInt_le.1 hdrift)

/-- The check is exact if and only if the clock is less than `2 ^ 63` away from a timestamp that is
a number, and away from zero by more than the drift for one that is none. -/
theorem drift_exact_iff (hdrift : 0 ≤ config.max_drift_secs) (now : ℕ) (timestamp : String) :
    (DriftExact config now timestamp ↔
      (∀ ts, parseI64 timestamp = some ts → |clock now - ts.toInt| < 2 ^ 63) ∧
        (parseI64 timestamp = none →
          config.max_drift_secs.toInt < |clock now| ∧ |clock now| < 2 ^ 63)) ∧
      (now < 2 ^ 63 → clock now = now) := by
  refine ⟨?_, clock_of_lt⟩
  have hzero (hnone : parseI64 timestamp = none) :
      clock now - ((parseI64 timestamp).getD 0).toInt = clock now := by
    rw [hnone]
    exact sub_zero _
  constructor
  · intro h
    refine ⟨fun ts hts => isSome_drift_iff.1 (h.number ts hts).1, fun hnone => ?_⟩
    have hfar := h.text hnone
    have hlt : |clock now| < 2 ^ 63 := by
      by_contra hge
      refine hfar (inWindow_of_minValue hdrift ?_)
      have hlo : -2 ^ 63 ≤ clock now := Int64.le_toInt _
      have hhi : clock now < 2 ^ 63 := Int64.toInt_lt _
      rw [abs_lt] at hge
      rw [hnone, Option.getD_none, Int64.sub_zero, eq_minValue_iff, ← clock]
      omega
    refine ⟨?_, hlt⟩
    rw [← hzero hnone] at hlt
    rwa [inWindow_iff hlt, not_le, hzero hnone] at hfar
  · rintro ⟨hnumber, htext⟩
    refine ⟨fun ts hts => ⟨isSome_drift_iff.2 (hnumber ts hts), ?_⟩, fun hnone => ?_⟩
    · have hlt := hnumber ts hts
      have hread : (parseI64 timestamp).getD 0 = ts := by rw [hts]; rfl
      rw [← hread] at hlt
      rw [inWindow_iff hlt, hread]
    · obtain ⟨hfar, hlt⟩ := htext hnone
      rw [← hzero hnone] at hlt hfar
      rw [inWindow_iff hlt, not_le]
      exact hfar

theorem drift_exact_iff_near : DriftExact (.new "secret") 1700000000 "1699999900" := by
  have hts : parseI64 "1699999900" = some 1699999900 := by decide
  have hclock : clock 1700000000 = 1700000000 := by decide
  refine (drift_exact_iff (by decide) 1700000000 "1699999900").1.2 ⟨fun ts hparse => ?_, ?_⟩
  · obtain rfl := Option.some.inj (hts.symm.trans hparse)
    rw [hclock]
    decide
  · rw [hts]
    nofun

/-- The least timestamp overflows; one at the distance `2 ^ 63` passes where overflow is not
checked, and so does a text that is no number while the clock is near zero. -/
theorem not_drift_exact :
    (drift 1700000000 Int64.minValue = none ∧
      ¬ DriftExact (.new "secret") 1700000000 "-9223372036854775808") ∧
    (InWindow (.new "secret") 1700000000 "-9223372035154775808" ∧
      ¬ DriftExact (.new "secret") 1700000000 "-9223372035154775808") ∧
    (InWindow (.new "secret") 100 "soon" ∧ ¬ DriftExact (.new "secret") 100 "soon") := by
  have hleast : parseI64 "-9223372036854775808" = some Int64.minValue := by decide
  have hfar : parseI64 "-9223372035154775808" = some (-9223372035154775808) := by decide
  have hsoon : InWindow (.new "secret") 100 "soon" := by decide
  refine ⟨⟨by decide, fun h => ?_⟩, ⟨by decide, fun h => ?_⟩, hsoon, fun h => ?_⟩
  · exact absurd (h.number _ hleast).1 (by decide)
  · exact absurd (h.number _ hfar).1 (by decide)
  · exact h.text (by decide) hsoon

end Rszero.Signature
