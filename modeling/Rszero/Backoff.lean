import Mathlib.Data.Nat.Basic
import Mathlib.Order.Monotone.Defs
import Rszero.Duration

/-!
# Back-off delays

The delays between the attempts of `RpcClient::call` and of `execute_with_retry`. A shift or a
product that does not fit is `none`. The first overflows from attempt 58 on; the second takes the
greatest factor of 32 bits from attempt 31 on, which shows where the back-off is so short that the
cap does not hide it.
-/

namespace Rszero.Backoff

open Time

/-- Between two attempts of `RpcClient::call`. -/
def rpcDelay (attempt : UInt32) : Option Duration := do
  let shifted ← shlU64 1 attempt
  let millis ← mulU64 100 shifted
  return (Duration.fromMillis millis).min (.fromSecs 5)

/-- Between two attempts of `execute_with_retry`. -/
def workerDelay (backoff : Duration) (attempt : UInt32) : Option Duration := do
  let multiplier ← if attempt ≥ 31 then some 0xffffffff else shlU32 1 attempt
  return (backoff.saturatingMul multiplier).min (.fromSecs 60)

/-- Below `max_retries` nothing overflows, the delay is the exact one, and it does not decrease. -/
structure Lawful (delay : UInt32 → Option Duration) (exact_nanos : ℕ → ℕ) (max_retries : UInt32) :
    Prop where
  exact_delay : ∀ attempt < max_retries,
    ∃ d, delay attempt = some d ∧ d.nanos = exact_nanos attempt.toNat
  mono : ∀ a b, a ≤ b → b < max_retries → ∀ d d', delay a = some d → delay b = some d' →
    d.nanos ≤ d'.nanos

def rpcExact (attempt : ℕ) : ℕ := min (100 * 2 ^ attempt * 10 ^ 6) (5 * 10 ^ 9)

def workerExact (backoff : Duration) (attempt : ℕ) : ℕ :=
  min (backoff.nanos * 2 ^ attempt) (60 * 10 ^ 9)

section

variable {delay : UInt32 → Option Duration} {exact_nanos : ℕ → ℕ} {max_retries : UInt32}

theorem Lawful.of_exact (hmono : Monotone exact_nanos)
    (h : ∀ attempt < max_retries,
      ∃ d, delay attempt = some d ∧ d.nanos = exact_nanos attempt.toNat) :
    Lawful delay exact_nanos max_retries where
  exact_delay := h
  mono a b hab hb d d' hd hd' := by
    have hab' : a.toNat ≤ b.toNat := UInt32.le_iff_toNat_le.1 hab
    have hb' : b.toNat < max_retries.toNat := UInt32.lt_iff_toNat_lt.1 hb
    obtain ⟨_, ha, haval⟩ := h a (UInt32.lt_iff_toNat_lt.2 (by omega))
    obtain ⟨_, hb, hbval⟩ := h b hb
    obtain rfl := Option.some.inj (hd.symm.trans ha)
    obtain rfl := Option.some.inj (hd'.symm.trans hb)
    rw [haval, hbval]
    exact hmono hab'

theorem monotone_rpcExact : Monotone rpcExact := by
  intro a b hab
  have hpow : 2 ^ a ≤ 2 ^ b := Nat.pow_le_pow_right (by omega) hab
  unfold rpcExact
  omega

theorem monotone_workerExact (backoff : Duration) : Monotone (workerExact backoff) := by
  intro a b hab
  have hpow : backoff.nanos * 2 ^ a ≤ backoff.nanos * 2 ^ b :=
    Nat.mul_le_mul_left _ (Nat.pow_le_pow_right (by omega) hab)
  unfold workerExact
  omega

end

section Rpc

variable {attempt max_retries : UInt32}

theorem rpcDelay_of_le (h : attempt.toNat ≤ 57) :
    ∃ d, rpcDelay attempt = some d ∧ d.nanos = rpcExact attempt.toNat := by
  have hpow : 2 ^ attempt.toNat ≤ 2 ^ 57 := Nat.pow_le_pow_right (by omega) h
  obtain ⟨shifted, hshifted, hval⟩ := shlU64_one (by omega : attempt.toNat < 64)
  obtain ⟨millis, hmillis, hmval⟩ : ∃ millis, mulU64 100 shifted = some millis ∧
      millis.toNat = (100 : UInt64).toNat * shifted.toNat := by
    apply mulU64_eq
    change 100 * shifted.toNat < _
    omega
  refine ⟨(Duration.fromMillis millis).min (.fromSecs 5), ?_, ?_⟩
  · rw [rpcDelay, hshifted]
    simp only [Option.bind_eq_bind, Option.bind_some, hmillis]
    rfl
  · rw [Duration.nanos_min, Duration.nanos_fromMillis, Duration.nanos_fromSecs, hmval, hval]
    rfl

/-- `100 * 2 ^ 58` does not fit into 64 bits. -/
theorem rpcDelay_fiftyEight : rpcDelay 58 = none := by decide

theorem rpc_lawful_iff : Lawful rpcDelay rpcExact max_retries ↔ max_retries.toNat ≤ 58 := by
  constructor
  · intro h
    by_contra hlt
    obtain ⟨d, hd, -⟩ := h.exact_delay 58 (UInt32.lt_iff_toNat_lt.2 (Nat.lt_of_not_le hlt))
    rw [rpcDelay_fiftyEight] at hd
    cases hd
  · intro h
    refine .of_exact monotone_rpcExact (fun attempt hattempt => rpcDelay_of_le ?_)
    have hlt := UInt32.lt_iff_toNat_lt.1 hattempt
    omega

end Rpc

section Worker

variable {backoff : Duration} {attempt max_retries : UInt32}

theorem workerDelay_of_le (h : attempt.toNat ≤ 30) :
    ∃ d, workerDelay backoff attempt = some d ∧ d.nanos = workerExact backoff attempt.toNat := by
  have hlt : ¬ attempt ≥ 31 := fun hge => by
    have hge' : 31 ≤ attempt.toNat := UInt32.le_iff_toNat_le.1 hge
    omega
  obtain ⟨multiplier, hmultiplier, hval⟩ := shlU32_one (by omega : attempt.toNat < 32)
  refine ⟨(backoff.saturatingMul multiplier).min (.fromSecs 60), ?_, ?_⟩
  · rw [workerDelay, if_neg hlt, hmultiplier]
    rfl
  · rw [Duration.nanos_min, Duration.nanos_saturatingMul, Duration.nanos_fromSecs, hval]
    change min (min _ _) (60 * 10 ^ 9) = min _ _
    omega

theorem workerDelay_of_ge (h : 31 ≤ attempt.toNat) :
    ∃ d, workerDelay backoff attempt = some d ∧
      d.nanos = min (backoff.nanos * (2 ^ 32 - 1)) (60 * 10 ^ 9) := by
  have hge : attempt ≥ 31 := UInt32.le_iff_toNat_le.2 h
  refine ⟨(backoff.saturatingMul 0xffffffff).min (.fromSecs 60), ?_, ?_⟩
  · rw [workerDelay, if_pos hge]
    rfl
  · rw [Duration.nanos_min, Duration.nanos_saturatingMul, Duration.nanos_fromSecs]
    change min (min (backoff.nanos * 4294967295) _) (60 * 10 ^ 9) = _
    omega

/-- From attempt 31 on the factor is below the exact one or above it, and both products are capped
if the back-off is not too short. -/
theorem worker_lawful_iff : Lawful (workerDelay backoff) (workerExact backoff) max_retries ↔
    max_retries.toNat ≤ 31 ∨ backoff.nanos = 0 ∨ 28 ≤ backoff.nanos := by
  constructor
  · intro h
    by_contra hnot
    obtain ⟨d, hd, hexact⟩ := h.exact_delay 31 (UInt32.lt_iff_toNat_lt.2 (by
      change 31 < max_retries.toNat
      omega))
    obtain ⟨d', hd', hval⟩ : ∃ d', workerDelay backoff 31 = some d' ∧
        d'.nanos = min (backoff.nanos * (2 ^ 32 - 1)) (60 * 10 ^ 9) :=
      workerDelay_of_ge (Nat.le_refl 31)
    obtain rfl := Option.some.inj (hd.symm.trans hd')
    change d.nanos = min (backoff.nanos * 2 ^ 31) (60 * 10 ^ 9) at hexact
    omega
  · intro h
    refine .of_exact (monotone_workerExact backoff) (fun attempt hattempt => ?_)
    have hlt := UInt32.lt_iff_toNat_lt.1 hattempt
    rcases Nat.lt_or_ge attempt.toNat 31 with hsmall | hlarge
    · exact workerDelay_of_le (by omega)
    · obtain ⟨d, hd, hval⟩ : ∃ d, workerDelay backoff attempt = some d ∧
          d.nanos = min (backoff.nanos * (2 ^ 32 - 1)) (60 * 10 ^ 9) := workerDelay_of_ge hlarge
      refine ⟨d, hd, ?_⟩
      have hpow : backoff.nanos * 2 ^ 31 ≤ backoff.nanos * 2 ^ attempt.toNat :=
        Nat.mul_le_mul_left _ (Nat.pow_le_pow_right (by omega) hlarge)
      rw [hval, workerExact]
      rcases h with hmax | hzero | hlong
      · omega
      · rw [hzero]
        omega
      · omega

end Worker

/-- Both delays are the exact ones below `max_retries`, without an overflow. -/
theorem backoff_lawful_iff (max_retries : UInt32) (backoff : Duration) :
    Lawful rpcDelay rpcExact max_retries ∧
        Lawful (workerDelay backoff) (workerExact backoff) max_retries ↔
      max_retries.toNat ≤ 58 ∧
        (max_retries.toNat ≤ 31 ∨ backoff.nanos = 0 ∨ 28 ≤ backoff.nanos) :=
  and_congr rpc_lawful_iff worker_lawful_iff

def oneNano : Duration := ⟨1, by omega⟩

/-- The product of attempt 58 overflows, and with a back-off of one nanosecond the delay of attempt
31 is not the exact one. -/
theorem not_backoff_lawful :
    rpcDelay 58 = none ∧ ¬ Lawful rpcDelay rpcExact 59 ∧
      (workerDelay oneNano 31).map Duration.nanos = some 4294967295 ∧
      workerExact oneNano 31 = 2147483648 ∧
      ¬ Lawful (workerDelay oneNano) (workerExact oneNano) 32 := by
  refine ⟨rpcDelay_fiftyEight, ?_, by decide, by decide, ?_⟩
  · rw [rpc_lawful_iff]
    decide
  · rw [worker_lawful_iff]
    decide

end Rszero.Backoff
