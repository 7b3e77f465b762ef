import Mathlib.Algebra.Order.Ring.Nat
import Mathlib.Tactic.Common

/-!
# Durations

`std::time::Duration` by its nanoseconds, of which it holds less than `2 ^ 64` seconds, and checked
arithmetic of fixed width: a shift or a product that does not fit is `none`.
-/

namespace Rszero.Time

structure Duration where
  nanos : ℕ
  lt : nanos < 2 ^ 64 * 10 ^ 9

namespace Duration

def MAX : Duration := ⟨2 ^ 64 * 10 ^ 9 - 1, by omega⟩

def fromMillis (millis : UInt64) : Duration :=
  ⟨millis.toNat * 10 ^ 6, by have := millis.toNat_lt; omega⟩

def fromSecs (secs : UInt64) : Duration :=
  ⟨secs.toNat * 10 ^ 9, by have := secs.toNat_lt; omega⟩

def saturatingMul (d : Duration) (factor : UInt32) : Duration :=
  if h : d.nanos * factor.toNat < 2 ^ 64 * 10 ^ 9 then ⟨d.nanos * factor.toNat, h⟩ else MAX

def min (d d' : Duration) : Duration := if d.nanos ≤ d'.nanos then d else d'

def asMillis (d : Duration) : ℕ := d.nanos / 10 ^ 6

@[simp] theorem nanos_fromMillis (millis : UInt64) :
    (fromMillis millis).nanos = millis.toNat * 10 ^ 6 := rfl

@[simp] theorem nanos_fromSecs (secs : UInt64) : (fromSecs secs).nanos = secs.toNat * 10 ^ 9 := rfl

@[simp] theorem nanos_min (d d' : Duration) : (d.min d').nanos = Min.min d.nanos d'.nanos := by
  rw [min]
  split_ifs <;> omega

@[simp] theorem nanos_saturatingMul (d : Duration) (factor : UInt32) :
    (d.saturatingMul factor).nanos =
      Min.min (d.nanos * factor.toNat) (2 ^ 64 * 10 ^ 9 - 1) := by
  rw [saturatingMul]
  split_ifs
  · change d.nanos * factor.toNat = _
    omega
  · change 2 ^ 64 * 10 ^ 9 - 1 = _
    omega

end Duration

def shlU64 (a : UInt64) (n : UInt32) : Option UInt64 :=
  if n.toNat < 64 then some (.ofNat (a.toNat * 2 ^ n.toNat)) else none

def shlU32 (a n : UInt32) : Option UInt32 :=
  if n.toNat < 32 then some (.ofNat (a.toNat * 2 ^ n.toNat)) else none

def mulU64 (a b : UInt64) : Option UInt64 :=
  if a.toNat * b.toNat < 2 ^ 64 then some (a * b) else none

def addU64 (a b : UInt64) : Option UInt64 :=
  if a.toNat + b.toNat < 2 ^ 64 then some (a + b) else none

section

variable {a b : UInt64} {n : UInt32}

theorem shlU64_one (h : n.toNat < 64) :
    ∃ c, shlU64 1 n = some c ∧ c.toNat = 2 ^ n.toNat := by
  refine ⟨_, if_pos h, ?_⟩
  rw [UInt64.toNat_ofNat_of_lt', UInt64.toNat_one, Nat.one_mul]
  rw [UInt64.toNat_one, Nat.one_mul]
  exact Nat.pow_lt_pow_right (by omega) h

theorem shlU32_one (h : n.toNat < 32) :
    ∃ c, shlU32 1 n = some c ∧ c.toNat = 2 ^ n.toNat := by
  refine ⟨_, if_pos h, ?_⟩
  rw [UInt32.toNat_ofNat_of_lt', UInt32.toNat_one, Nat.one_mul]
  rw [UInt32.toNat_one, Nat.one_mul]
  exact Nat.pow_lt_pow_right (by omega) h

theorem mulU64_eq (h : a.toNat * b.toNat < 2 ^ 64) :
    ∃ c, mulU64 a b = some c ∧ c.toNat = a.toNat * b.toNat := by
  refine ⟨_, if_pos h, ?_⟩
  rw [UInt64.toNat_mul, Nat.mod_eq_of_lt h]

theorem addU64_eq (h : a.toNat + b.toNat < 2 ^ 64) :
    ∃ c, addU64 a b = some c ∧ c.toNat = a.toNat + b.toNat := by
  refine ⟨_, if_pos h, ?_⟩
  rw [UInt64.toNat_add, Nat.mod_eq_of_lt h]

end

end Rszero.Time
