import Mathlib.Algebra.Order.BigOperators.Group.List
import Mathlib.Data.Rat.Floor
import Rszero.EvenRotation
import Rszero.Shedder

/-!
# The control law of the shedder

The shedder with its fields of 64 bits, used by one call after another. What a record makes of an
average above the threshold is a parameter, so that the program of the accesses, which computes it
in floating point, and the law, which takes the excess as a fraction, are about the same functions.
-/

namespace Rszero.Shedder.Sequential

open CallProgram EvenRotation

structure AdaptiveShedder where
  active : Bool
  latency_threshold_ms : UInt64
  avg_latency_ms : UInt64
  sample_count : UInt64
  latency_sum : UInt64
  reject_probability : UInt64
  deriving DecidableEq

/-- `+`, where it does not overflow. -/
def checkedAdd (a b : UInt64) : Option UInt64 :=
  if a.toNat + b.toNat < 2 ^ 64 then some (a + b) else none

def saturatingSub (a b : UInt64) : UInt64 := if b ≤ a then a - b else 0

namespace AdaptiveShedder

def new (latency_threshold_ms : UInt64) : AdaptiveShedder where
  active := false
  latency_threshold_ms
  avg_latency_ms := 0
  sample_count := 0
  latency_sum := 0
  reject_probability := 0

def resetWindow (count : UInt64) (s : AdaptiveShedder) : AdaptiveShedder :=
  if count > 1000 then { s with sample_count := 0, latency_sum := 0 } else s

def decrease (s : AdaptiveShedder) : AdaptiveShedder :=
  if s.reject_probability > 0 then
    { s with reject_probability := saturatingSub s.reject_probability 500 }
  else s

def deactivateAtZero (s : AdaptiveShedder) : AdaptiveShedder :=
  if s.reject_probability = 0 then { s with active := false } else s

section Reject

variable (reject : UInt64 → UInt64 → UInt64)

/-- `reject` has the new probability for an average above the threshold. -/
def settle (avg : UInt64) (s : AdaptiveShedder) : AdaptiveShedder :=
  if avg > s.latency_threshold_ms then
    { s with reject_probability := reject avg s.latency_threshold_ms, active := true }
  else s.decrease.deactivateAtZero

/-- There is no shedder after an overflow. -/
def recordLatency (s : AdaptiveShedder) (latency_ms : UInt64) : Option AdaptiveShedder := do
  let count ← checkedAdd s.sample_count 1
  let sum ← checkedAdd s.latency_sum latency_ms
  let counted := { s with sample_count := count, latency_sum := sum, avg_latency_ms := sum / count }
  return (counted.settle reject (sum / count)).resetWindow count

end Reject

/-- `draw` is `fastrand::u64(0..10000)`. -/
def shouldReject (s : AdaptiveShedder) (draw : UInt64) : Bool :=
  if s.active then
    if s.reject_probability = 0 then false else decide (draw < s.reject_probability)
  else false

def activate (s : AdaptiveShedder) : AdaptiveShedder :=
  { s with active := true, reject_probability := 5000 }

def deactivate (s : AdaptiveShedder) : AdaptiveShedder :=
  { s with active := false, reject_probability := 0 }

end AdaptiveShedder

def AdaptiveShedder.shared (s : AdaptiveShedder) : Shedder.AdaptiveShedder where
  active := s.active
  counter
    | .latency_threshold_ms => s.latency_threshold_ms.toNat
    | .avg_latency_ms => s.avg_latency_ms.toNat
    | .sample_count => s.sample_count.toNat
    | .latency_sum => s.latency_sum.toNat
    | .reject_probability => s.reject_probability.toNat

theorem checkedAdd_eq {a b : UInt64} (h : a.toNat + b.toNat < 2 ^ 64) :
    ∃ c, checkedAdd a b = some c ∧ c.toNat = a.toNat + b.toNat := by
  refine ⟨a + b, if_pos h, ?_⟩
  rw [UInt64.toNat_add, Nat.mod_eq_of_lt h]

theorem toNat_of_checkedAdd {a b c : UInt64} (h : checkedAdd a b = some c) :
    c.toNat = a.toNat + b.toNat := by
  by_cases hlt : a.toNat + b.toNat < 2 ^ 64
  · obtain ⟨c', hc', hnat⟩ := checkedAdd_eq hlt
    obtain rfl := Option.some.inj (h.symm.trans hc')
    exact hnat
  · rw [checkedAdd, if_neg hlt] at h
    cases h

theorem toNat_saturatingSub (a b : UInt64) : (saturatingSub a b).toNat = a.toNat - b.toNat := by
  unfold saturatingSub
  split
  case isTrue hle => exact UInt64.toNat_sub_of_le _ _ hle
  case isFalse hle =>
    have hlt := UInt64.lt_iff_toNat_lt.1 (UInt64.not_le.1 hle)
    rw [UInt64.toNat_zero]
    omega

namespace AdaptiveShedder

def put (s : AdaptiveShedder) (c : Counter) (n : UInt64) : AdaptiveShedder :=
  match c with
  | .latency_threshold_ms => { s with latency_threshold_ms := n }
  | .avg_latency_ms => { s with avg_latency_ms := n }
  | .sample_count => { s with sample_count := n }
  | .latency_sum => { s with latency_sum := n }
  | .reject_probability => { s with reject_probability := n }

theorem shared_put (s : AdaptiveShedder) (c : Counter) (n : UInt64) :
    s.shared.set c n.toNat = (s.put c n).shared := by
  have hcounter : (s.shared.set c n.toNat).counter = (s.put c n).shared.counter := by
    funext c'
    cases c <;> cases c' <;> rfl
  cases c <;> exact congrArg (Shedder.AdaptiveShedder.mk s.active) hcounter

theorem eval_load (s : Shedder.AdaptiveShedder) (c : Counter) (next : ℕ → Program) :
    eval perform s (.call (.load c) next) = eval perform s (next (s.counter c)) := rfl

theorem eval_store (s : Shedder.AdaptiveShedder) (c : Counter) (n : ℕ) (next : Unit → Program) :
    eval perform s (.call (.store c n) next) = eval perform (s.set c n) (next ()) := rfl

variable {s s' : AdaptiveShedder} {reject : UInt64 → UInt64 → UInt64}

theorem eval_resetWindow (s : AdaptiveShedder) (count : UInt64) :
    eval perform s.shared (Shedder.resetWindow count.toNat) =
      (some none, (s.resetWindow count).shared) := by
  by_cases hcount : count > 1000
  · have hnat : count.toNat > 1000 := UInt64.lt_iff_toNat_lt.1 hcount
    rw [Shedder.resetWindow, if_pos hnat, resetWindow, if_pos hcount]
    have hstore := (s.put .sample_count 0).shared_put .latency_sum 0
    rw [← s.shared_put .sample_count 0] at hstore
    exact congrArg (Prod.mk _) hstore
  · have hnat : ¬ count.toNat > 1000 := fun h => hcount (UInt64.lt_iff_toNat_lt.2 h)
    rw [Shedder.resetWindow, if_neg hnat, resetWindow, if_neg hcount]
    rfl

theorem toNat_eq_zero_iff {n : UInt64} : n.toNat = 0 ↔ n = 0 :=
  ⟨fun h => UInt64.toNat_inj.1 h, fun h => congrArg UInt64.toNat h⟩

theorem eval_deactivateAtZero (s : AdaptiveShedder) (count : UInt64) :
    eval perform s.shared (Shedder.deactivateAtZero count.toNat) =
      (some none, (s.deactivateAtZero.resetWindow count).shared) := by
  rw [Shedder.deactivateAtZero, deactivateAtZero]
  change eval perform s.shared (if s.reject_probability.toNat = 0 then _ else _) = _
  by_cases hzero : s.reject_probability = 0
  · rw [if_pos (toNat_eq_zero_iff.2 hzero), if_pos hzero]
    exact eval_resetWindow { s with active := false } count
  · rw [if_neg (fun h => hzero (toNat_eq_zero_iff.1 h)), if_neg hzero]
    exact eval_resetWindow s count

/-- The branch of a record whose average is not above the threshold. -/
theorem eval_decrease (s : AdaptiveShedder) (count : UInt64) :
    eval perform s.shared (.call (.load .reject_probability) fun current =>
        if current > 0 then
          .call (.store .reject_probability (current - 500)) fun _ =>
            Shedder.deactivateAtZero count.toNat
        else Shedder.deactivateAtZero count.toNat) =
      (some none, (s.decrease.deactivateAtZero.resetWindow count).shared) := by
  rw [eval_load, show s.shared.counter .reject_probability = s.reject_probability.toNat from rfl]
  by_cases hpos : s.reject_probability > 0
  · have hnat : s.reject_probability.toNat > 0 := UInt64.lt_iff_toNat_lt.1 hpos
    rw [if_pos hnat, decrease, if_pos hpos]
    have hsub := toNat_saturatingSub s.reject_probability 500
    rw [UInt64.toNat_ofNat] at hsub
    rw [eval_store, ← hsub, shared_put]
    exact eval_deactivateAtZero _ count
  · have hnat : ¬ s.reject_probability.toNat > 0 := fun h => hpos (UInt64.lt_iff_toNat_lt.2 h)
    rw [if_neg hnat, decrease, if_neg hpos]
    exact eval_deactivateAtZero s count

theorem eval_settle (s : AdaptiveShedder) (count avg : UInt64)
    (hreject : avg > s.latency_threshold_ms →
      (reject avg s.latency_threshold_ms).toNat =
        probability avg.toNat s.latency_threshold_ms.toNat) :
    eval perform s.shared (Shedder.settle count.toNat avg.toNat) =
      (some none,
        ((({ s with avg_latency_ms := avg }).settle reject avg).resetWindow count).shared) := by
  rw [Shedder.settle, settle]
  change eval perform (s.shared.set .avg_latency_ms avg.toNat)
    (if avg.toNat > s.latency_threshold_ms.toNat then _ else _) = _
  rw [s.shared_put .avg_latency_ms avg]
  by_cases habove : avg > s.latency_threshold_ms
  · rw [if_pos (UInt64.lt_iff_toNat_lt.1 habove), if_pos habove]
    change eval perform { (s.put .avg_latency_ms avg).shared.set .reject_probability
      (probability avg.toNat s.latency_threshold_ms.toNat) with active := true } _ = _
    rw [← hreject habove, shared_put]
    exact eval_resetWindow { s with
      avg_latency_ms := avg
      reject_probability := reject avg s.latency_threshold_ms
      active := true } count
  · rw [if_neg (fun h => habove (UInt64.lt_iff_toNat_lt.2 h)), if_neg habove]
    exact eval_decrease _ count

/-- Without an overflow, and with the probability of the accesses, a record is what the program of
its accesses does when no other call comes between. -/
theorem eval_recordLatency {latency_ms : UInt64}
    (hreject : ∀ avg, avg > s.latency_threshold_ms →
      (reject avg s.latency_threshold_ms).toNat =
        probability avg.toNat s.latency_threshold_ms.toNat)
    (h : s.recordLatency reject latency_ms = some s') :
    eval perform s.shared (Shedder.recordLatency latency_ms.toNat) = (some none, s'.shared) := by
  obtain ⟨count, hcount, h⟩ := Option.bind_eq_some_iff.1 h
  obtain ⟨sum, hsum, h⟩ := Option.bind_eq_some_iff.1 h
  obtain rfl := Option.some.inj h
  have hcount := toNat_of_checkedAdd hcount
  have hsum := toNat_of_checkedAdd hsum
  change eval perform ((s.shared.set .sample_count (s.sample_count.toNat + 1)).set .latency_sum
    (s.latency_sum.toNat + latency_ms.toNat)) (Shedder.settle (s.sample_count.toNat + 1)
      ((s.latency_sum.toNat + latency_ms.toNat) / (s.sample_count.toNat + 1))) = _
  rw [show s.sample_count.toNat + 1 = count.toNat from hcount.symm, ← hsum, ← UInt64.toNat_div,
    shared_put, shared_put]
  exact eval_settle { s with sample_count := count, latency_sum := sum } count (sum / count)
    (hreject _)

theorem eval_activate (s : AdaptiveShedder) :
    eval perform s.shared Shedder.activate = (some none, s.activate.shared) :=
  congrArg (Prod.mk _) (shared_put { s with active := true } .reject_probability 5000)

theorem eval_deactivate (s : AdaptiveShedder) :
    eval perform s.shared Shedder.deactivate = (some none, s.deactivate.shared) :=
  congrArg (Prod.mk _) (shared_put { s with active := false } .reject_probability 0)

theorem eval_shouldReject (s : AdaptiveShedder) (draw : UInt64) :
    eval perform s.shared (Shedder.shouldReject draw.toNat) =
      (some (some (s.shouldReject draw)), s.shared) := by
  change eval perform s.shared (if s.active then _ else _) = _
  rw [shouldReject]
  cases hactive : s.active with
  | false => rfl
  | true =>
      rw [if_pos rfl, if_pos rfl, eval_load,
        show s.shared.counter .reject_probability = s.reject_probability.toNat from rfl]
      simp only [eval, toNat_eq_zero_iff, UInt64.lt_iff_toNat_lt]

end AdaptiveShedder

/-- `(excess * 100.0).min(95.0) as u64 * 100` of the fraction. -/
def exactProbability (avg threshold : UInt64) : UInt64 :=
  let excess : ℚ := (avg - threshold).toNat / threshold.toNat
  .ofNat (⌊min (excess * 100) 95⌋₊ * 100)

inductive Call
  | recordLatency (latency_ms : UInt64)
  | activate
  | deactivate

def step (s : AdaptiveShedder) : Call → Option AdaptiveShedder
  | .recordLatency latency_ms => s.recordLatency exactProbability latency_ms
  | .activate => some s.activate
  | .deactivate => some s.deactivate

def system (latency_threshold_ms : UInt64) : TransitionSystem AdaptiveShedder Call where
  init := .new latency_threshold_ms
  step := step

/-- 1001 of these do not overflow. -/
def maxLatency : ℕ := (2 ^ 64 - 1) / 1001

def Call.latency : Call → Option UInt64
  | .recordLatency latency_ms => some latency_ms
  | _ => none

def samples (calls : List Call) : List ℕ := (calls.filterMap Call.latency).map UInt64.toNat

/-- The samples since the last reset of the window, which every 1001st sample brings. -/
abbrev window (past : List ℕ) : List ℕ := openBlock 1001 past

def average (past : List ℕ) (latency_ms : ℕ) : ℕ :=
  ((window past).sum + latency_ms) / ((window past).length + 1)

/-- What a record with the average `avg` makes of the shedder. -/
structure Recorded (threshold avg : ℕ) (s s' : AdaptiveShedder) : Prop where
  stored : s'.avg_latency_ms.toNat = avg
  above : threshold < avg → s'.active ∧ s'.reject_probability.toNat =
    100 * ⌊min 95 (100 * ((avg : ℚ) - threshold) / threshold)⌋₊
  notAbove : avg ≤ threshold →
    s'.reject_probability.toNat = s.reject_probability.toNat - 500 ∧
      (s'.active = false ↔ s'.reject_probability = 0)

structure Controlled (threshold : UInt64) (past : List ℕ) (s : AdaptiveShedder) : Prop where
  latency_threshold_ms : s.latency_threshold_ms = threshold
  sample_count : s.sample_count.toNat = (window past).length
  latency_sum : s.latency_sum.toNat = (window past).sum
  bounded : s.reject_probability.toNat ≤ 9500
  sheds : 0 < s.reject_probability → s.active

/-- No record after `past` has an average above the threshold. -/
def NotAbove (threshold : ℕ) : List ℕ → List UInt64 → Prop
  | _, [] => True
  | past, latency_ms :: latencies =>
      average past latency_ms.toNat ≤ threshold ∧
        NotAbove threshold (past ++ [latency_ms.toNat]) latencies

theorem percent_le (avg threshold : ℕ) :
    ⌊min 95 (100 * ((avg : ℚ) - threshold) / threshold)⌋₊ ≤ 95 := by
  have h := Nat.floor_mono (min_le_left (95 : ℚ) (100 * ((avg : ℚ) - threshold) / threshold))
  rwa [show ⌊(95 : ℚ)⌋₊ = 95 from Nat.floor_ofNat 95] at h

theorem toNat_exactProbability {avg threshold : UInt64} (h : threshold ≤ avg) :
    (exactProbability avg threshold).toNat =
      100 * ⌊min 95 (100 * ((avg.toNat : ℚ) - threshold.toNat) / threshold.toNat)⌋₊ := by
  have hle := percent_le avg.toNat threshold.toNat
  have hexcess : (((avg - threshold).toNat : ℚ) / threshold.toNat) * 100 =
      100 * ((avg.toNat : ℚ) - threshold.toNat) / threshold.toNat := by
    rw [UInt64.toNat_sub_of_le _ _ h, Nat.cast_sub (UInt64.le_iff_toNat_le.1 h)]
    ring
  simp only [exactProbability, hexcess, min_comm _ (95 : ℚ)]
  rw [UInt64.toNat_ofNat', Nat.mod_eq_of_lt (by omega), Nat.mul_comm]

theorem length_window_lt (past : List ℕ) : (window past).length < 1001 := by
  rw [length_openBlock]
  exact Nat.mod_lt _ (by decide)

theorem sum_window_le {past : List ℕ} (h : ∀ x ∈ past, x ≤ maxLatency) :
    (window past).sum ≤ (window past).length * maxLatency := by
  have hle := List.sum_le_card_nsmul (window past) maxLatency
    (fun x hx => h x (openBlock_subset 1001 past hx))
  rwa [nsmul_eq_mul, Nat.cast_id] at hle

/-- The last sample of a full window resets it. -/
theorem window_concat (past : List ℕ) (latency_ms : ℕ) :
    window (past ++ [latency_ms]) =
      if (window past).length + 1 > 1000 then [] else window past ++ [latency_ms] := by
  have hlength : (window past).length = past.length % 1001 := length_openBlock 1001 past
  rcases openBlock_concat 1001 past latency_ms with ⟨hdvd, hnil, -⟩ | ⟨hdvd, hconcat, -⟩
  · rw [if_pos (by omega)]
    exact hnil
  · rw [if_neg (by omega)]
    exact hconcat

variable {threshold : UInt64} {past : List ℕ} {s s' : AdaptiveShedder}

theorem controlled_new (threshold : UInt64) : Controlled threshold [] (.new threshold) where
  latency_threshold_ms := rfl
  sample_count := rfl
  latency_sum := rfl
  bounded := Nat.zero_le _
  sheds h := absurd h (UInt64.lt_irrefl 0)

/-- Whether or not the probability is zero already, it goes down by 500. -/
theorem decrease_eq (s : AdaptiveShedder) :
    s.decrease = { s with reject_probability := saturatingSub s.reject_probability 500 } := by
  unfold AdaptiveShedder.decrease
  split
  case isTrue => rfl
  case isFalse hpos =>
    have hzero : s.reject_probability = 0 := by
      rw [gt_iff_lt, UInt64.lt_iff_toNat_lt, UInt64.toNat_zero] at hpos
      exact UInt64.toNat_inj.1 (Nat.eq_zero_of_not_pos hpos)
    have hsub : saturatingSub s.reject_probability 500 = s.reject_probability := by
      rw [hzero]
      decide
    rw [hsub]

theorem deactivateAtZero_eq (s : AdaptiveShedder) :
    s.deactivateAtZero = { s with active := s.active && decide (s.reject_probability ≠ 0) } := by
  unfold AdaptiveShedder.deactivateAtZero
  split
  case isTrue hzero => simp [hzero]
  case isFalse hne => simp [hne]

theorem settle_above {avg : UInt64} (h : s.latency_threshold_ms < avg) :
    s.settle exactProbability avg = { s with
      reject_probability := exactProbability avg s.latency_threshold_ms
      active := true } := if_pos h

theorem settle_notAbove {avg : UInt64} (h : ¬ s.latency_threshold_ms < avg) :
    s.settle exactProbability avg = { s with
      reject_probability := saturatingSub s.reject_probability 500
      active := s.active && decide (saturatingSub s.reject_probability 500 ≠ 0) } := by
  rw [AdaptiveShedder.settle, if_neg h, decrease_eq, deactivateAtZero_eq]

/-- What the settlement of an average does, whatever the counters of the window. -/
theorem settle_recorded {avg : UInt64} (hbounded : s.reject_probability.toNat ≤ 9500)
    (hsheds : 0 < s.reject_probability → s.active) (hstored : s.avg_latency_ms = avg) :
    Recorded s.latency_threshold_ms.toNat avg.toNat s (s.settle exactProbability avg) ∧
      (s.settle exactProbability avg).reject_probability.toNat ≤ 9500 ∧
      (0 < (s.settle exactProbability avg).reject_probability →
        (s.settle exactProbability avg).active) := by
  by_cases habove : s.latency_threshold_ms < avg
  · have hle := percent_le avg.toNat s.latency_threshold_ms.toNat
    have hprobability := toNat_exactProbability (UInt64.le_of_lt habove)
    have hlt := UInt64.lt_iff_toNat_lt.1 habove
    rw [settle_above habove]
    refine ⟨⟨congrArg UInt64.toNat hstored, fun _ => ⟨rfl, hprobability⟩, ?_⟩, ?_, fun _ => rfl⟩
    · intro hnot
      omega
    · rw [hprobability]
      omega
  · have hsub := toNat_saturatingSub s.reject_probability 500
    rw [UInt64.toNat_ofNat] at hsub
    have hnot : ¬ s.latency_threshold_ms.toNat < avg.toNat :=
      fun h => habove (UInt64.lt_iff_toNat_lt.2 h)
    -- a probability that is left over was there before, so the shedder was active
    have hactive : saturatingSub s.reject_probability 500 ≠ 0 → s.active := by
      intro hne
      apply hsheds
      rw [UInt64.lt_iff_toNat_lt, UInt64.toNat_zero]
      have hpos : (saturatingSub s.reject_probability 500).toNat ≠ 0 :=
        fun h => hne (UInt64.toNat_inj.1 h)
      omega
    rw [settle_notAbove habove]
    refine ⟨⟨congrArg UInt64.toNat hstored, fun h => absurd h hnot, fun _ => ⟨hsub, ?_⟩⟩, ?_, ?_⟩
    · by_cases hzero : saturatingSub s.reject_probability 500 = 0
      · simp [hzero]
      · simp [hzero, hactive hzero]
    · exact hsub.trans_le (by omega)
    · intro hpos
      have hne := (UInt64.pos_iff_ne_zero).1 hpos
      simp [hne, hactive hne]

theorem settle_frame (s : AdaptiveShedder) (avg : UInt64) :
    (s.settle exactProbability avg).latency_threshold_ms = s.latency_threshold_ms ∧
      (s.settle exactProbability avg).sample_count = s.sample_count ∧
      (s.settle exactProbability avg).latency_sum = s.latency_sum := by
  by_cases habove : s.latency_threshold_ms < avg
  · rw [settle_above habove]
    exact ⟨rfl, rfl, rfl⟩
  · rw [settle_notAbove habove]
    exact ⟨rfl, rfl, rfl⟩

theorem resetWindow_eq (s : AdaptiveShedder) (count : UInt64) :
    s.resetWindow count = { s with
      sample_count := if count > 1000 then 0 else s.sample_count
      latency_sum := if count > 1000 then 0 else s.latency_sum } := by
  unfold AdaptiveShedder.resetWindow
  split
  case isTrue => rfl
  case isFalse => rfl

/-- A record within the bound does not overflow. -/
theorem recordLatency_step (h : Controlled threshold past s) (hpast : ∀ x ∈ past, x ≤ maxLatency)
    {latency_ms : UInt64} (hlatency : latency_ms.toNat ≤ maxLatency) :
    ∃ s', s.recordLatency exactProbability latency_ms = some s' ∧
      Recorded threshold.toNat (average past latency_ms.toNat) s s' ∧
      Controlled threshold (past ++ [latency_ms.toNat]) s' := by
  have hlength := length_window_lt past
  have hmax : maxLatency * 1001 ≤ 2 ^ 64 - 1 := Nat.div_mul_le_self ..
  have hsumle := (sum_window_le hpast).trans
    (Nat.mul_le_mul_right maxLatency (Nat.le_of_lt_succ hlength))
  have hone : (1 : UInt64).toNat = 1 := rfl
  obtain ⟨count, hcount, hcountNat⟩ := checkedAdd_eq (a := s.sample_count) (b := 1)
    (by rw [h.sample_count, hone]; omega)
  obtain ⟨sum, hsum, hsumNat⟩ := checkedAdd_eq (a := s.latency_sum) (b := latency_ms)
    (by rw [h.latency_sum]; omega)
  rw [h.sample_count, hone] at hcountNat
  rw [h.latency_sum] at hsumNat
  let counted := { s with
    sample_count := count
    latency_sum := sum
    avg_latency_ms := sum / count }
  have havg : (sum / count).toNat = average past latency_ms.toNat := by
    rw [UInt64.toNat_div, hsumNat, hcountNat]
    rfl
  have hreset : count > 1000 ↔ (window past).length + 1 > 1000 := by
    rw [gt_iff_lt, UInt64.lt_iff_toNat_lt, hcountNat]
    exact Iff.rfl
  obtain ⟨hrecorded, hbounded, hsheds⟩ := settle_recorded (s := counted) h.bounded h.sheds rfl
  obtain ⟨hthreshold, hcounter, hadded⟩ := settle_frame counted (sum / count)
  rw [havg, show counted.latency_threshold_ms = threshold from h.latency_threshold_ms] at hrecorded
  refine ⟨(counted.settle exactProbability (sum / count)).resetWindow count, ?_, ?_, ?_⟩
  · rw [AdaptiveShedder.recordLatency, hcount, hsum]
    rfl
  · rw [resetWindow_eq]
    exact ⟨hrecorded.stored, hrecorded.above, hrecorded.notAbove⟩
  · rw [resetWindow_eq]
    refine ⟨hthreshold.trans h.latency_threshold_ms, ?_, ?_, hbounded, hsheds⟩
    · rw [window_concat]
      by_cases hlong : (window past).length + 1 > 1000
      · simp [hreset.2 hlong, hlong]
      · simp [mt hreset.1 hlong, hlong, hcounter, counted, hcountNat]
    · rw [window_concat]
      by_cases hlong : (window past).length + 1 > 1000
      · simp [hreset.2 hlong, hlong]
      · simp [mt hreset.1 hlong, hlong, hadded, counted, hsumNat]

theorem controlled_activate (h : Controlled threshold past s) :
    Controlled threshold past s.activate where
  latency_threshold_ms := h.latency_threshold_ms
  sample_count := h.sample_count
  latency_sum := h.latency_sum
  bounded := show (5000 : UInt64).toNat ≤ 9500 by decide
  sheds _ := rfl

theorem controlled_deactivate (h : Controlled threshold past s) :
    Controlled threshold past s.deactivate where
  latency_threshold_ms := h.latency_threshold_ms
  sample_count := h.sample_count
  latency_sum := h.latency_sum
  bounded := Nat.zero_le _
  sheds hpos := absurd hpos (UInt64.lt_irrefl 0)

theorem le_of_mem_concat {n : ℕ} (hpast : ∀ x ∈ past, x ≤ maxLatency) (hn : n ≤ maxLatency) :
    ∀ x ∈ past ++ [n], x ≤ maxLatency := by
  intro x hx
  rcases List.mem_append.1 hx with hx | hx
  · exact hpast x hx
  · rwa [List.mem_singleton.1 hx]

theorem controlled_exec (h : Controlled threshold past s) (hpast : ∀ x ∈ past, x ≤ maxLatency)
    (calls : List Call)
    (hcalls : ∀ latency_ms, .recordLatency latency_ms ∈ calls → latency_ms.toNat ≤ maxLatency) :
    ∃ s', (system threshold).exec s calls = some s' ∧
      Controlled threshold (past ++ samples calls) s' ∧
      ∀ x ∈ past ++ samples calls, x ≤ maxLatency := by
  induction calls generalizing past s with
  | nil => exact ⟨s, rfl, by simpa [samples] using h, by simpa [samples] using hpast⟩
  | cons call calls ih =>
      have htail := fun latency_ms hmem => hcalls latency_ms (List.mem_cons_of_mem _ hmem)
      cases call with
      | recordLatency latency_ms =>
          have hlatency := hcalls latency_ms List.mem_cons_self
          obtain ⟨t, hstep, -, ht⟩ := recordLatency_step h hpast hlatency
          obtain ⟨s', hexec, hrest⟩ := ih ht (le_of_mem_concat hpast hlatency) htail
          refine ⟨s', (system threshold).exec_cons_eq_some.2 ⟨t, hstep, hexec⟩, ?_⟩
          simpa [samples, Call.latency] using hrest
      | activate => exact ih (controlled_activate h) hpast htail
      | deactivate => exact ih (controlled_deactivate h) hpast htail

/-- Each record that is not above the threshold lowers the probability. -/
theorem exec_notAbove (h : Controlled threshold past s) (hpast : ∀ x ∈ past, x ≤ maxLatency)
    {latencies : List UInt64} (hlatencies : ∀ l ∈ latencies, l.toNat ≤ maxLatency)
    (hlow : NotAbove threshold.toNat past latencies) :
    ∃ s', (system threshold).exec s (latencies.map .recordLatency) = some s' ∧
      s'.reject_probability.toNat = s.reject_probability.toNat - 500 * latencies.length ∧
      (latencies ≠ [] → (s'.active = false ↔ s'.reject_probability = 0)) := by
  induction latencies generalizing past s with
  | nil => exact ⟨s, rfl, by simp, fun hne => absurd rfl hne⟩
  | cons latency_ms latencies ih =>
      have hlatency := hlatencies latency_ms List.mem_cons_self
      obtain ⟨t, hstep, hrecorded, ht⟩ := recordLatency_step h hpast hlatency
      obtain ⟨hlower, hends⟩ := hrecorded.notAbove hlow.1
      obtain ⟨s', hexec, hprobability, hactive⟩ := ih ht (le_of_mem_concat hpast hlatency)
        (fun l hl => hlatencies l (List.mem_cons_of_mem _ hl)) hlow.2
      refine ⟨s', (system threshold).exec_cons_eq_some.2 ⟨t, hstep, hexec⟩, ?_, fun _ => ?_⟩
      · rw [hprobability, hlower, List.length_cons]
        omega
      · cases latencies with
        | nil => rwa [← Option.some.inj hexec]
        | cons l latencies => exact hactive (List.cons_ne_nil _ _)

/-- The draws that are rejected are those below the probability. -/
theorem shouldReject_eq (h : Controlled threshold past s) (draw : UInt64) :
    s.shouldReject draw = decide (draw < s.reject_probability) := by
  rw [AdaptiveShedder.shouldReject]
  by_cases hzero : s.reject_probability = 0
  · simp [hzero, UInt64.not_lt_zero]
  · simp [hzero, h.sheds (UInt64.pos_iff_ne_zero.2 hzero)]

/-- For one call after another: every run is without an overflow, a record moves the probability as
its average tells, and 19 records that are not above the threshold end any shedding. -/
theorem control_law (threshold : UInt64) (_hthreshold : 1 ≤ threshold) (calls : List Call)
    (hcalls : ∀ latency_ms, .recordLatency latency_ms ∈ calls → latency_ms.toNat ≤ maxLatency) :
    ∃ s, (system threshold).exec (.new threshold) calls = some s ∧
      s.reject_probability.toNat ≤ 9500 ∧ (0 < s.reject_probability → s.active) ∧
      s.sample_count.toNat = (window (samples calls)).length ∧
      s.latency_sum.toNat = (window (samples calls)).sum ∧
      (window (samples calls)).length + 1 ≤ 1001 ∧
      (∀ latency_ms, latency_ms.toNat ≤ maxLatency →
        ∃ s', step s (.recordLatency latency_ms) = some s' ∧
          Recorded threshold.toNat (average (samples calls) latency_ms.toNat) s s') ∧
      ∀ latencies : List UInt64, (∀ l ∈ latencies, l.toNat ≤ maxLatency) → 19 ≤ latencies.length →
        NotAbove threshold.toNat (samples calls) latencies →
        ∃ s', (system threshold).exec s (latencies.map .recordLatency) = some s' ∧
          s'.reject_probability = 0 ∧ s'.active = false := by
  obtain ⟨s, hexec, h, hpast⟩ := controlled_exec (controlled_new threshold)
    (fun x hx => absurd hx List.not_mem_nil) calls hcalls
  refine ⟨s, hexec, h.bounded, h.sheds, h.sample_count, h.latency_sum, length_window_lt _, ?_, ?_⟩
  · intro latency_ms hlatency
    obtain ⟨s', hstep, hrecorded, -⟩ := recordLatency_step h hpast hlatency
    exact ⟨s', hstep, hrecorded⟩
  · intro latencies hlatencies hlength hlow
    obtain ⟨s', hexec', hprobability, hactive⟩ := exec_notAbove h hpast hlatencies hlow
    have hbounded := h.bounded
    have hzero : s'.reject_probability = 0 :=
      UInt64.toNat_inj.1 (hprobability.trans (Nat.sub_eq_zero_of_le (by omega)))
    have hne : latencies ≠ [] := List.ne_nil_of_length_pos (by omega)
    exact ⟨s', hexec', hzero, (hactive hne).2 hzero⟩

theorem control_law_hundred : ∃ s, (system 100).exec (.new 100) [.recordLatency 500] = some s ∧
    s.reject_probability.toNat ≤ 9500 := by
  obtain ⟨s, hexec, hbounded, -⟩ := control_law 100 (by decide) [.recordLatency 500] (by
    intro latency_ms hmem
    cases hmem with
    | head => decide
    | tail _ hmem => cases hmem)
  exact ⟨s, hexec, hbounded⟩

end Rszero.Shedder.Sequential
