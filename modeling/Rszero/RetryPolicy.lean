import Mathlib.Algebra.Order.Field.Power
import Mathlib.Data.Rat.Floor
import Mathlib.Tactic.Positivity
import Rszero.Duration

/-!
# Delays of a retry policy

`RetryPolicy::delay_for_attempt` with exact rational arithmetic. The cap comes before the jitter, so
that the jitter exceeds it; the attempt becomes a signed exponent of 32 bits; and what is capped
becomes a number of 64 bits, the greatest one when it does not fit. A random number below a bound is
what is left of a draw modulo the bound.
-/

namespace Rszero.Retry

open Time

structure RetryPolicy where
  max_retries : UInt32
  initial_delay : Duration
  max_delay : Duration
  multiplier : ℚ
  jitter : Bool

def asI32 (attempt : UInt32) : ℤ :=
  if attempt.toNat < 2 ^ 31 then attempt.toNat else attempt.toNat - 2 ^ 32

def asU64 (x : ℚ) : UInt64 := .ofNat (min ⌊x⌋₊ (2 ^ 64 - 1))

namespace RetryPolicy

def new : RetryPolicy := ⟨3, .fromMillis 100, .fromSecs 5, 2, true⟩

/-- The delay in milliseconds that the cap is applied to. -/
def base (policy : RetryPolicy) (attempt : UInt32) : ℚ :=
  policy.initial_delay.asMillis * policy.multiplier ^ asI32 attempt

def delayMs (policy : RetryPolicy) (attempt : UInt32) : UInt64 :=
  asU64 (min (policy.base attempt) policy.max_delay.asMillis)

/-- `none` is an overflow of the sum with the jitter. -/
def delayForAttempt (policy : RetryPolicy) (attempt : UInt32) (draw : ℕ) : Option Duration :=
  let delay_ms := policy.delayMs attempt
  if policy.jitter ∧ 2 ≤ delay_ms.toNat then do
    let jitter_ms := UInt64.ofNat (draw % (delay_ms.toNat / 2))
    let millis ← addU64 delay_ms jitter_ms
    return .fromMillis millis
  else some (.fromMillis delay_ms)

def capMs (policy : RetryPolicy) : ℕ := min policy.max_delay.asMillis (2 ^ 64 - 1)

/-- Whatever is drawn, the delay is at most the maximum and at least the initial delay, or the
maximum if that is less; and without jitter it does not decrease up to this attempt. -/
structure Respects (policy : RetryPolicy) (attempt : UInt32) : Prop where
  bounded : ∀ draw, ∃ d, policy.delayForAttempt attempt draw = some d ∧
    d.nanos ≤ policy.max_delay.nanos ∧
    min policy.initial_delay.asMillis policy.max_delay.asMillis ≤ d.asMillis
  mono : policy.jitter = false → ∀ a ≤ attempt, ∀ draw draw' d d',
    policy.delayForAttempt a draw = some d → policy.delayForAttempt attempt draw' = some d' →
      d.nanos ≤ d'.nanos

/-- The bound from below fits into 64 bits, the exponent is not negative or does no harm, and there
is no jitter, or room for it below the cap. -/
structure Sound (policy : RetryPolicy) (attempt : UInt32) : Prop where
  fits : min policy.initial_delay.asMillis policy.max_delay.asMillis < 2 ^ 64
  exponent : attempt.toNat < 2 ^ 31 ∨ policy.multiplier = 1 ∨ policy.initial_delay.asMillis = 0 ∨
    policy.max_delay.asMillis * policy.multiplier ^ (2 ^ 32 - attempt.toNat) ≤
      policy.initial_delay.asMillis
  room : policy.jitter = false ∨ policy.capMs ≤ 3 ∨
    3 * ⌊policy.initial_delay.asMillis * policy.multiplier ^ asI32 attempt⌋₊ ≤
      2 * policy.capMs + 3

section Delay

variable {policy : RetryPolicy} {attempt : UInt32}

theorem toNat_delayMs (policy : RetryPolicy) (attempt : UInt32) :
    (policy.delayMs attempt).toNat = min ⌊policy.base attempt⌋₊ policy.capMs := by
  have hfloor : ⌊min (policy.base attempt) policy.max_delay.asMillis⌋₊ =
      min ⌊policy.base attempt⌋₊ policy.max_delay.asMillis := by
    rw [Nat.floor_mono.map_min, Nat.floor_natCast]
  have hlt : min (min ⌊policy.base attempt⌋₊ policy.max_delay.asMillis) (2 ^ 64 - 1) < 2 ^ 64 := by
    omega
  rw [delayMs, asU64, hfloor, UInt64.toNat_ofNat_of_lt' hlt, capMs, min_assoc]

theorem base_of_lt (h : attempt.toNat < 2 ^ 31) :
    policy.base attempt = policy.initial_delay.asMillis * policy.multiplier ^ attempt.toNat := by
  rw [base, asI32, if_pos h, zpow_natCast]

theorem base_mul_pow (hm : 1 ≤ policy.multiplier) (h : 2 ^ 31 ≤ attempt.toNat) :
    policy.base attempt * policy.multiplier ^ (2 ^ 32 - attempt.toNat) =
      policy.initial_delay.asMillis := by
  have hlt : attempt.toNat < 2 ^ 32 := attempt.toNat_lt
  have hne : policy.multiplier ≠ 0 := by positivity
  have hexp : asI32 attempt = -((2 ^ 32 - attempt.toNat : ℕ) : ℤ) := by
    rw [asI32, if_neg (by omega)]
    omega
  rw [base, hexp, mul_assoc, ← zpow_natCast, ← zpow_add₀ hne, neg_add_cancel, zpow_zero, mul_one]

/-- The delay before the jitter keeps the bound from below exactly when the exponent does. -/
theorem le_floor_base_iff (hm : 1 ≤ policy.multiplier) :
    min policy.initial_delay.asMillis policy.max_delay.asMillis ≤ ⌊policy.base attempt⌋₊ ↔
      attempt.toNat < 2 ^ 31 ∨ policy.multiplier = 1 ∨ policy.initial_delay.asMillis = 0 ∨
        policy.max_delay.asMillis * policy.multiplier ^ (2 ^ 32 - attempt.toNat) ≤
          policy.initial_delay.asMillis := by
  rcases Nat.lt_or_ge attempt.toNat (2 ^ 31) with hsmall | hlarge
  · refine iff_of_true ((min_le_left _ _).trans (Nat.le_floor ?_)) (.inl hsmall)
    rw [base_of_lt hsmall]
    exact le_mul_of_one_le_right (Nat.cast_nonneg _) (one_le_pow₀ hm)
  · have hlt : attempt.toNat < 2 ^ 32 := attempt.toNat_lt
    have hbase := base_mul_pow hm hlarge
    rw [or_iff_right (by omega)]
    by_cases hone : policy.multiplier = 1
    · rw [hone, one_pow, mul_one] at hbase
      rw [hbase, Nat.floor_natCast]
      exact iff_of_true (min_le_left _ _) (.inl hone)
    · rw [or_iff_right hone]
      have hpow : 1 < policy.multiplier ^ (2 ^ 32 - attempt.toNat) :=
        one_lt_pow₀ (lt_of_le_of_ne hm (Ne.symm hone)) (by omega)
      by_cases hzero : policy.initial_delay.asMillis = 0
      · refine iff_of_true ?_ (.inl hzero)
        rw [hzero, Nat.zero_min]
        exact Nat.zero_le _
      · -- the delay is below the initial one, so the maximum is the bound
        have hpos : 0 < policy.base attempt := by
          have hinitial : (0 : ℚ) < policy.initial_delay.asMillis := by
            exact_mod_cast Nat.pos_of_ne_zero hzero
          rw [← hbase] at hinitial
          exact pos_of_mul_pos_left hinitial (by positivity)
        have hless : ⌊policy.base attempt⌋₊ < policy.initial_delay.asMillis := by
          rw [Nat.floor_lt hpos.le, ← hbase]
          exact lt_mul_of_one_lt_right hpos hpow
        rw [or_iff_right hzero, min_le_iff, or_iff_right (Nat.not_le.2 hless),
          Nat.le_floor_iff hpos.le, ← hbase]
        exact (mul_le_mul_iff_left₀ (by positivity)).symm

def jitterMs (policy : RetryPolicy) (attempt : UInt32) (draw : ℕ) : ℕ :=
  if policy.jitter ∧ 2 ≤ (policy.delayMs attempt).toNat then
    draw % ((policy.delayMs attempt).toNat / 2)
  else 0

theorem jitterMs_lt (policy : RetryPolicy) (attempt : UInt32) (draw : ℕ) :
    policy.jitterMs attempt draw < 2 ^ 64 := by
  have hdelay := (policy.delayMs attempt).toNat_lt
  rw [jitterMs]
  split_ifs with hjitter
  · have hmod := Nat.mod_lt draw (by omega : 0 < (policy.delayMs attempt).toNat / 2)
    omega
  · omega

theorem delayForAttempt_eq_map (policy : RetryPolicy) (attempt : UInt32) (draw : ℕ) :
    policy.delayForAttempt attempt draw =
      (addU64 (policy.delayMs attempt) (.ofNat (policy.jitterMs attempt draw))).map
        Duration.fromMillis := by
  by_cases hjitter : policy.jitter ∧ 2 ≤ (policy.delayMs attempt).toNat
  · simp only [delayForAttempt, jitterMs, if_pos hjitter]
    cases addU64 (policy.delayMs attempt)
      (.ofNat (draw % ((policy.delayMs attempt).toNat / 2))) <;> rfl
  · simp only [delayForAttempt, jitterMs, if_neg hjitter]
    have hfit : (policy.delayMs attempt).toNat + (UInt64.ofNat 0).toNat < 2 ^ 64 :=
      (policy.delayMs attempt).toNat_lt
    rw [addU64, if_pos hfit]
    exact congrArg (fun millis => some (Duration.fromMillis millis)) (UInt64.add_zero _).symm

theorem delayForAttempt_eq (draw : ℕ)
    (h : (policy.delayMs attempt).toNat + policy.jitterMs attempt draw < 2 ^ 64) :
    ∃ millis, policy.delayForAttempt attempt draw = some (.fromMillis millis) ∧
      millis.toNat = (policy.delayMs attempt).toNat + policy.jitterMs attempt draw := by
  have hdraw := UInt64.toNat_ofNat_of_lt' (jitterMs_lt policy attempt draw)
  obtain ⟨millis, hmillis, hval⟩ : ∃ millis, addU64 (policy.delayMs attempt)
      (.ofNat (policy.jitterMs attempt draw)) = some millis ∧ millis.toNat = _ + _ :=
    addU64_eq (by rwa [hdraw])
  refine ⟨millis, ?_, by rw [hval, hdraw]⟩
  rw [delayForAttempt_eq_map, hmillis]
  rfl

theorem delayForAttempt_eq_none (draw : ℕ)
    (h : 2 ^ 64 ≤ (policy.delayMs attempt).toNat + policy.jitterMs attempt draw) :
    policy.delayForAttempt attempt draw = none := by
  have hdraw := UInt64.toNat_ofNat_of_lt' (jitterMs_lt policy attempt draw)
  rw [delayForAttempt_eq_map, addU64, hdraw, if_neg (Nat.not_lt.2 h)]
  rfl

theorem asMillis_fromMillis (millis : UInt64) :
    (Duration.fromMillis millis).asMillis = millis.toNat := by
  rw [Duration.asMillis, Duration.nanos_fromMillis, Nat.mul_div_cancel _ (by omega)]

theorem exists_delay_iff (draw lo : ℕ) :
    (∃ d, policy.delayForAttempt attempt draw = some d ∧ d.nanos ≤ policy.max_delay.nanos ∧
        lo ≤ d.asMillis) ↔
      (policy.delayMs attempt).toNat + policy.jitterMs attempt draw ≤ policy.capMs ∧
        lo ≤ (policy.delayMs attempt).toNat + policy.jitterMs attempt draw := by
  have hcap : policy.capMs = min (policy.max_delay.nanos / 10 ^ 6) (2 ^ 64 - 1) := rfl
  rcases Nat.lt_or_ge ((policy.delayMs attempt).toNat + policy.jitterMs attempt draw) (2 ^ 64) with
    hfit | hover
  · obtain ⟨millis, hmillis, hval⟩ := delayForAttempt_eq draw hfit
    rw [hmillis]
    simp only [Option.some.injEq, exists_eq_left', asMillis_fromMillis, Duration.nanos_fromMillis]
    omega
  · rw [delayForAttempt_eq_none draw hover]
    refine iff_of_false (by rintro ⟨d, hd, -⟩; cases hd) ?_
    omega

theorem respects_bounded_iff (hm : 1 ≤ policy.multiplier) :
    (∀ draw, ∃ d, policy.delayForAttempt attempt draw = some d ∧
      d.nanos ≤ policy.max_delay.nanos ∧
      min policy.initial_delay.asMillis policy.max_delay.asMillis ≤ d.asMillis) ↔
      policy.Sound attempt := by
  have hdelay := toNat_delayMs policy attempt
  have hcap : policy.capMs = min policy.max_delay.asMillis (2 ^ 64 - 1) := rfl
  have hfloor : ⌊policy.base attempt⌋₊ =
      ⌊policy.initial_delay.asMillis * policy.multiplier ^ asI32 attempt⌋₊ := rfl
  have hexponent := @le_floor_base_iff policy attempt hm
  simp only [exists_delay_iff]
  constructor
  · intro h
    obtain ⟨hle, hlo⟩ := h 0
    have hzero : policy.jitterMs attempt 0 = 0 := by
      rw [jitterMs, Nat.zero_mod, ite_self]
    refine ⟨by omega, hexponent.1 (by omega), ?_⟩
    by_cases hjitter : policy.jitter ∧ 2 ≤ (policy.delayMs attempt).toNat
    · -- the greatest jitter
      obtain ⟨hmost, -⟩ := h ((policy.delayMs attempt).toNat / 2 - 1)
      rw [jitterMs, if_pos hjitter, Nat.mod_eq_of_lt (by omega)] at hmost
      omega
    · cases hoff : policy.jitter with
      | false => exact .inl rfl
      | true =>
          have hlt : ¬ 2 ≤ (policy.delayMs attempt).toNat := fun hge => hjitter ⟨hoff, hge⟩
          omega
  · intro h draw
    have hlo := hexponent.2 h.exponent
    have hfits := h.fits
    have hroom := h.room
    rw [jitterMs]
    split_ifs with hjitter
    · have hmod := Nat.mod_lt draw (by omega : 0 < (policy.delayMs attempt).toNat / 2)
      have hcapped := hroom.resolve_left (by rw [hjitter.1]; exact Bool.noConfusion)
      omega
    · omega

/-- With a sound exponent the delay before the jitter does not decrease. -/
theorem delayMs_mono (hm : 1 ≤ policy.multiplier) (h : policy.Sound attempt) {a : UInt32}
    (ha : a ≤ attempt) :
    (policy.delayMs a).toNat ≤ (policy.delayMs attempt).toNat := by
  have ha' : a.toNat ≤ attempt.toNat := UInt32.le_iff_toNat_le.1 ha
  rw [toNat_delayMs, toNat_delayMs]
  rcases Nat.lt_or_ge attempt.toNat (2 ^ 31) with hsmall | hlarge
  · have hbase : policy.base a ≤ policy.base attempt := by
      rw [base_of_lt hsmall, base_of_lt (by omega)]
      exact mul_le_mul_of_nonneg_left (pow_le_pow_right₀ hm ha') (Nat.cast_nonneg _)
    exact min_le_min_right _ (Nat.floor_mono hbase)
  · rcases h.exponent with hsmall | hone | hzero | hmax
    · omega
    · rw [base, base, hone, one_zpow, one_zpow]
    · rw [base, base, hzero, Nat.cast_zero, zero_mul, zero_mul]
    · -- the maximum is reached
      have hreached : policy.capMs ≤ ⌊policy.base attempt⌋₊ := by
        refine (min_le_left _ _).trans (Nat.le_floor ?_)
        rw [← base_mul_pow hm hlarge] at hmax
        exact le_of_mul_le_mul_right hmax (by positivity)
      omega

/-- A delay respects its bounds if and only if the policy is sound for the attempt. -/
theorem respects_iff_sound (policy : RetryPolicy) (attempt : UInt32) (hm : 1 ≤ policy.multiplier) :
    policy.Respects attempt ↔ policy.Sound attempt := by
  refine ⟨fun h => (respects_bounded_iff hm).1 h.bounded, fun h => ?_⟩
  refine ⟨(respects_bounded_iff hm).2 h, fun hoff a ha draw draw' d d' hd hd' => ?_⟩
  have hjitter (b : UInt32) (draw : ℕ) : policy.jitterMs b draw = 0 := by
    rw [jitterMs, hoff]
    exact if_neg (by simp)
  have hfit (b : UInt32) (draw : ℕ) :
      (policy.delayMs b).toNat + policy.jitterMs b draw < 2 ^ 64 := by
    rw [hjitter]
    exact (policy.delayMs b).toNat_lt
  obtain ⟨millis, hmillis, hval⟩ := delayForAttempt_eq draw (hfit a draw)
  obtain ⟨millis', hmillis', hval'⟩ := delayForAttempt_eq draw' (hfit attempt draw')
  obtain rfl := Option.some.inj (hd.symm.trans hmillis)
  obtain rfl := Option.some.inj (hd'.symm.trans hmillis')
  rw [hjitter] at hval hval'
  have hmono := delayMs_mono hm h ha
  rw [Duration.nanos_fromMillis, Duration.nanos_fromMillis]
  omega

end Delay

/-- The policy of `test_delay_max_cap`, with jitter. -/
def tenfold : RetryPolicy := ⟨3, .fromMillis 100, .fromMillis 500, 10, true⟩

theorem respects_iff_sound_tenfold : tenfold.Respects 0 ↔ tenfold.Sound 0 :=
  respects_iff_sound tenfold 0 (by norm_num [tenfold])

/-- The jitter comes on top of the maximal delay. -/
theorem not_respects_tenfold :
    tenfold.delayForAttempt 1 249 = some (.fromMillis 749) ∧
      tenfold.max_delay = .fromMillis 500 ∧ ¬ tenfold.Respects 1 := by
  have hfloor : ⌊tenfold.base 1⌋₊ = 1000 := by
    have hmillis : tenfold.initial_delay.asMillis = 100 := by decide
    have hbase : tenfold.base 1 = (1000 : ℕ) := by
      have hone : (1 : UInt32).toNat = 1 := rfl
      rw [base_of_lt (by decide), hmillis, hone, pow_one]
      norm_num [tenfold]
    rw [hbase, Nat.floor_natCast]
  have hms : tenfold.delayMs 1 = 500 := by
    apply UInt64.toNat_inj.1
    rw [toNat_delayMs, hfloor]
    decide
  have hdelay : tenfold.delayForAttempt 1 249 = some (.fromMillis 749) := by
    simp only [delayForAttempt, hms]
    rfl
  refine ⟨hdelay, rfl, fun h => ?_⟩
  obtain ⟨d, hd, hle, -⟩ := h.bounded 249
  obtain rfl := Option.some.inj (hdelay.symm.trans hd)
  exact absurd hle (by decide)

end RetryPolicy

end Rszero.Retry
