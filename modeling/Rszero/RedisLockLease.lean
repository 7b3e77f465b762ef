import Mathlib.Algebra.Order.Ring.Nat
import Rszero.RedisLockCalls

/-!
# How long a lock lasts

A lock should last for the ttl that it is asked for. Redis is told the whole seconds of the ttl, by
`try_acquire`, by `refresh` and by the loop that refreshes: the rest of the ttl is lost, and a ttl
of less than a second is none at all.
-/

namespace Rszero.RedisLock

open AsyncBlock ExpiringKeys

/-- The value stays under the key until the ttl has passed, if nobody changes the store. -/
def KeepsFor (store : Store String String) (now : ℕ) (key value : String) (ttl : ℕ) : Prop :=
  ∀ t, now ≤ t → t < now + ttl → owned store t key value

def WholeSeconds (ttl : ℕ) : Prop := ttl % 1000000000 = 0

/-- The seconds are an `i64` when Redis has made milliseconds of them. -/
def Fits (secs : ℕ) : Prop := secs ≤ 9223372036854775

instance (secs : ℕ) : Decidable (Fits secs) := inferInstanceAs (Decidable (secs ≤ _))

def AcquiresFor (store : Store String String) (now : ℕ) (lock : DistributedLock) (ttl : ℕ) : Prop :=
  ∃ store', setLock store now lock.resource lock.value ttl = some store' ∧
    KeepsFor store' now (lockKey lock.resource) lock.value ttl

/-- The store after the script, when Redis takes the seconds of a refresh and the script answers
`1`. -/
def Script.evalFitting (now : ℕ) (store : Store String String) (script : Script) :
    Option (Store String String) :=
  match script with
  | .release _ _ => script.eval now store
  | .refresh _ _ secs => if Fits secs then script.eval now store else none

/-- A script that answers `1` keeps the key for the ttl. -/
def RefreshesFor (store : Store String String) (now : ℕ) (script : Script) (ttl : ℕ) : Prop :=
  ∀ store', script.evalFitting now store = some store' →
    KeepsFor store' now script.key script.value ttl

/-- The store after `SET key value NX` with the expiration, when the key is set. -/
def setNx (store : Store String String) (now : ℕ) (key value : String) :
    Expiration → Option (Store String String)
  | .ex secs => if 0 < secs ∧ Fits secs then setIfAbsent store now key value (nanos secs) else none
  | .px millis =>
      if 0 < millis ∧ millis < 9223372036854775808 then
        setIfAbsent store now key value (millis * 1000000)
      else
        none

/-- Wherever the command sets a free key or extends its own, the key is kept for the ttl. -/
def Command.Lasts (ttl : ℕ) : Command → Prop
  | .set key value expiration => ∀ store now, live store now key = none →
      ∃ store', setNx store now key value expiration = some store' ∧
        KeepsFor store' now key value ttl
  | .spawnRefresh script _ => ∀ store now, owned store now script.key script.value →
      RefreshesFor store now script ttl
  | .eval _ | .abortRefresh => True

section Seconds

variable {store : Store String String} {now ttl d : ℕ} {key value : String}

theorem le_nanos_asSecs_iff : ttl ≤ nanos (asSecs ttl) ↔ WholeSeconds ttl := by
  unfold nanos asSecs WholeSeconds
  omega

theorem keepsFor_iff (hpos : 0 < ttl) (h : store key = some ⟨value, now + d⟩) :
    KeepsFor store now key value ttl ↔ ttl ≤ d := by
  have howned (t : ℕ) : owned store t key value ↔ t < now + d := by
    rw [owned_iff]
    constructor
    · rintro ⟨expiresAt, hlive⟩
      obtain ⟨hentry, hlt⟩ := live_eq_some_iff.1 hlive
      cases h.symm.trans hentry
      exact hlt
    · exact fun hlt => ⟨now + d, live_eq_some_iff.2 ⟨h, hlt⟩⟩
  constructor
  · intro hkeeps
    have hlast := (howned _).1 (hkeeps (now + ttl - 1) (by omega) (by omega))
    omega
  · intro hle t _ ht
    exact (howned t).2 (by omega)

theorem setIfAbsent_of_free (hfree : live store now key = none) :
    setIfAbsent store now key value d =
      some (Function.update store key (some ⟨value, now + d⟩)) := by
  rw [setIfAbsent, hfree]
  rfl

theorem setNx_ex_asSecs (resource : String) :
    setNx store now (lockKey resource) value (.ex (asSecs ttl)) =
      setLock store now resource value ttl := by
  have hexpiration : expiration ttl =
      if 0 < asSecs ttl ∧ Fits (asSecs ttl) then some (asSecs ttl) else none := rfl
  rw [setNx, setLock, hexpiration]
  split_ifs
  · rfl
  · rfl

end Seconds

section Lasts

variable {T : Type} {store : Store String String} {now ttl : ℕ} {lock : DistributedLock}

/-- A free lock is acquired for its ttl if and only if the seconds are all of it. -/
theorem acquiresFor_iff (hpos : 0 < ttl) (hfree : live store now (lockKey lock.resource) = none) :
    AcquiresFor store now lock ttl ↔ WholeSeconds ttl ∧ Fits (asSecs ttl) := by
  rw [AcquiresFor, ← setNx_ex_asSecs, setNx, setIfAbsent_of_free hfree]
  constructor
  · rintro ⟨store', hset, hkeeps⟩
    split_ifs at hset with hsecs
    obtain rfl := Option.some.inj hset
    rw [keepsFor_iff hpos (Function.update_self ..), le_nanos_asSecs_iff] at hkeeps
    exact ⟨hkeeps, hsecs.2⟩
  · rintro ⟨hwhole, hfits⟩
    have hsecs : 0 < asSecs ttl := by
      unfold WholeSeconds at hwhole
      unfold asSecs
      omega
    refine ⟨_, if_pos ⟨hsecs, hfits⟩, ?_⟩
    rw [keepsFor_iff hpos (Function.update_self ..), le_nanos_asSecs_iff]
    exact hwhole

/-- A refresh by the owner is for its ttl if and only if the seconds are all of it, or Redis does
not take them. -/
theorem refreshesFor_iff (hpos : 0 < ttl)
    (howned : owned store now (lockKey lock.resource) lock.value) :
    RefreshesFor store now (lock.refresh ttl) ttl ↔ (Fits (asSecs ttl) → WholeSeconds ttl) := by
  have heval : (lock.refresh ttl).eval now store = some (Function.update store
      (lockKey lock.resource) (some ⟨lock.value, now + nanos (asSecs ttl)⟩)) := if_pos howned
  have hchecked : (lock.refresh ttl).evalFitting now store =
      if Fits (asSecs ttl) then (lock.refresh ttl).eval now store else none := rfl
  rw [RefreshesFor, hchecked, heval]
  constructor
  · intro h hfits
    have hkeeps := h _ (if_pos hfits)
    rwa [DistributedLock.refresh, Script.key, Script.value,
      keepsFor_iff hpos (Function.update_self ..), le_nanos_asSecs_iff] at hkeeps
  · intro hwhole store' hstore
    split_ifs at hstore with hfits
    obtain rfl := Option.some.inj hstore
    rw [DistributedLock.refresh, Script.key, Script.value,
      keepsFor_iff hpos (Function.update_self ..), le_nanos_asSecs_iff]
    exact hwhole hfits

theorem lasts_set_iff (hpos : 0 < ttl) (resource value : String) :
    (Command.set (lockKey resource) value (.ex (asSecs ttl))).Lasts ttl ↔
      WholeSeconds ttl ∧ Fits (asSecs ttl) := by
  simp only [Command.Lasts, setNx_ex_asSecs]
  constructor
  · intro h
    have hacquires : AcquiresFor (fun _ => none) 0 ⟨0, resource, value⟩ ttl := h _ 0 rfl
    exact (acquiresFor_iff hpos rfl).1 hacquires
  · intro h store now hfree
    have hacquires : AcquiresFor store now ⟨0, resource, value⟩ ttl :=
      (acquiresFor_iff hpos hfree).2 h
    exact hacquires

/-- The commands of a call last for the ttl if and only if its `SET` does. -/
theorem lasts_iff_of_mem {commands : List Command} (hpos : 0 < ttl) {resource value : String}
    (hset : .set (lockKey resource) value (.ex (asSecs ttl)) ∈ commands)
    (h : WholeSeconds ttl → Fits (asSecs ttl) → ∀ command ∈ commands, command.Lasts ttl) :
    (∀ command ∈ commands, command.Lasts ttl) ↔ WholeSeconds ttl ∧ Fits (asSecs ttl) :=
  ⟨fun hall => (lasts_set_iff hpos resource value).1 (hall _ hset),
    fun hwhole => h hwhole.1 hwhole.2⟩

theorem lasts_withLock_iff (hpos : 0 < ttl) (env : Environment (Answers T)) (client : ClientId)
    (resource value : String) :
    (∀ command ∈ (run env 0 (withLock client resource value ttl)).1, command.Lasts ttl) ↔
      WholeSeconds ttl ∧ Fits (asSecs ttl) := by
  refine lasts_iff_of_mem hpos List.mem_cons_self (fun hwhole hfits => Only.run ?_ env 0)
  exact only_locked ((lasts_set_iff hpos resource value).2 ⟨hwhole, hfits⟩) trivial
    (only_releaseAndReturn trivial)

theorem lasts_withLockAutoRefresh_iff (hpos : 0 < ttl) (env : Environment (Answers T))
    (client : ClientId) (resource value : String) (refresh_interval : ℕ) :
    (∀ command ∈ (run env 0 (withLockAutoRefresh client resource value ttl refresh_interval)).1,
        command.Lasts ttl) ↔ WholeSeconds ttl ∧ Fits (asSecs ttl) := by
  refine lasts_iff_of_mem hpos List.mem_cons_self (fun hwhole hfits => Only.run ?_ env 0)
  refine only_locked ((lasts_set_iff hpos resource value).2 ⟨hwhole, hfits⟩) trivial
    ⟨fun store now howned => ?_, fun result => ⟨trivial, fun _ => ?_⟩⟩
  · exact (refreshesFor_iff hpos howned).2 (fun _ => hwhole)
  · exact only_releaseAndReturn trivial result

/-- A free lock is acquired for its ttl, by itself or in a call, if and only if the ttl is in whole
seconds that Redis takes; and a refresh by the owner that Redis takes is for its ttl if and only if
that is in whole seconds. -/
theorem lasts_as_asked_iff (hpos : 0 < ttl) (store : Store String String) (now : ℕ)
    (lock : DistributedLock) (env : Environment (Answers T)) (refresh_interval : ℕ) :
    (live store now (lockKey lock.resource) = none →
      (AcquiresFor store now lock ttl ↔ WholeSeconds ttl ∧ Fits (asSecs ttl))) ∧
    (owned store now (lockKey lock.resource) lock.value →
      (RefreshesFor store now (lock.refresh ttl) ttl ↔
        (Fits (asSecs ttl) → WholeSeconds ttl))) ∧
    ((∀ command ∈ (run env 0 (withLock lock.client lock.resource lock.value ttl)).1,
        command.Lasts ttl) ↔ WholeSeconds ttl ∧ Fits (asSecs ttl)) ∧
    ((∀ command ∈ (run env 0
          (withLockAutoRefresh lock.client lock.resource lock.value ttl refresh_interval)).1,
        command.Lasts ttl) ↔ WholeSeconds ttl ∧ Fits (asSecs ttl)) :=
  ⟨acquiresFor_iff hpos, refreshesFor_iff hpos, lasts_withLock_iff hpos env _ _ _,
    lasts_withLockAutoRefresh_iff hpos env _ _ _ refresh_interval⟩

theorem lasts_as_asked_iff_fiveSeconds :
    AcquiresFor (fun _ => none) 0 ⟨0, "job", "a"⟩ 5000000000 :=
  ((lasts_as_asked_iff (by decide) (fun _ => none) 0 ⟨0, "job", "a"⟩ panicking 1000000000).1
    rfl).2 ⟨rfl, by decide⟩

/-- Half a second is no time for a `SET`, and a refresh for half a second deletes the key and
answers that the lock has been refreshed; of a second and a half the half is lost. -/
theorem not_lasts_halfSecond :
    setLock (fun _ => none) 0 "job" "a" 500000000 = none ∧
      (∃ store', (DistributedLock.refresh ⟨0, "job", "a"⟩ 500000000).evalFitting 0
          (fun _ => some ⟨"a", 5000000000⟩) = some store' ∧ live store' 0 (lockKey "job") = none) ∧
      ¬ AcquiresFor (fun _ => none) 0 ⟨0, "job", "a"⟩ 1500000000 := by
  refine ⟨rfl, ⟨_, rfl, rfl⟩, fun h => ?_⟩
  have hwhole : 1500000000 % 1000000000 = 0 := ((acquiresFor_iff (by decide) rfl).1 h).1
  omega

end Lasts

end Rszero.RedisLock
