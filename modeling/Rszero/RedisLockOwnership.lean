import Rszero.RedisLock

/-!
# Who holds a lock

A client holds a lock from when its `SET` or its refresh is executed until the TTL has passed or a
release is executed. These leases are a history of the commands; they agree with the store, so that
a resource has one holder at most, and the script of a client that holds nothing changes nothing.
-/

namespace Rszero.RedisLock

open ExpiringKeys

structure Lease where
  client : ClientId
  resource : String
  expiresAt : ℕ

abbrev Leases := String → Option Lease

def Lease.grant (l : Lease) : String × ℕ := (lockKey l.resource, l.expiresAt)

def Leases.execute (leases : Leases) (now : ℕ) : Script → Leases
  | .release _ value => Function.update leases value none
  | .refresh _ value secs =>
      Function.update leases value
        ((leases value).map (fun l => { l with expiresAt := now + nanos secs }))

def Leases.note (leases : Leases) (s : State) : Label → Leases
  | .tryAcquire c resource value ttl answer =>
      if answer ≠ .failed ∧ (setLock s.store s.now resource value ttl).isSome then
        Function.update leases value (some ⟨c, resource, s.now + nanos (asSecs ttl)⟩)
      else leases
  | .execute issued answer =>
      if answer ≠ .failed ∧ (issued.script.eval s.now s.store).isSome then
        leases.execute s.now issued.script
      else leases
  | _ => leases

def leasing : TransitionSystem (State × Leases) Label :=
  system.observe (fun _ => none) (fun leases s a _ => leases.note s a)

def Fresh (x : State × Leases) (a : Label) : Prop :=
  ∀ c resource value ttl answer, a = .tryAcquire c resource value ttl answer → x.2 value = none

/-- The client has the lock, and its TTL has not passed. -/
def Holds (x : State × Leases) (lock : DistributedLock) : Prop :=
  ∃ u, x.2 lock.value = some ⟨lock.client, lock.resource, u⟩ ∧ x.1.now < u

def Owns (x : State × Leases) (script : Script) : Prop :=
  ∃ lock, Holds x lock ∧ lockKey lock.resource = script.key ∧ lock.value = script.value

/-- A resource has one holder at most, and what is executed for anybody else leaves the store as it
is. -/
def Owned (x : State × Leases) : Prop :=
  (∀ lock lock', Holds x lock → Holds x lock' → lock.resource = lock'.resource → lock = lock') ∧
    ∀ issued answer s', ¬ Owns x issued.script →
      system.step x.1 (.execute issued answer) = some s' → s'.store = x.1.store

def Leases.grants (leases : Leases) : Grants String String :=
  fun value => (leases value).map Lease.grant

def Linked (x : State × Leases) : Prop := Agree x.1.store x.1.now x.2.grants

section Steps

variable {s s' : State} {leases : Leases} {a : Label}

theorem grants_update (leases : Leases) (value : String) (l : Option Lease) :
    Leases.grants (Function.update leases value l) =
      Function.update leases.grants value (l.map Lease.grant) := by
  funext v
  by_cases hv : v = value
  · subst hv
    simp [Leases.grants]
  · simp [Leases.grants, hv]

theorem grants_eq_some_iff {value key : String} {u : ℕ} :
    leases.grants value = some (key, u) ↔
      ∃ l, leases value = some l ∧ lockKey l.resource = key ∧ l.expiresAt = u := by
  simp [Leases.grants, Lease.grant, Option.map_eq_some_iff]

theorem agree_eval (h : Agree s.store s.now leases.grants) {script : Script}
    {store : Store String String} (he : script.eval s.now s.store = some store) :
    Agree store s.now (leases.execute s.now script).grants := by
  cases script with
  | release key value =>
      rw [Leases.execute, grants_update]
      exact h.deleteIfOwned he
  | refresh key value secs =>
      have hagree := h.extendIfOwned he
      obtain ⟨u, hgrant, -⟩ := h.owned_iff.1 (owned_of_extendIfOwned he)
      obtain ⟨l, hl, hkey, -⟩ := grants_eq_some_iff.1 hgrant
      rw [Leases.execute, grants_update, hl, Option.map_some, Option.map_some, Lease.grant, hkey]
      exact hagree

theorem agree_setLock (h : Agree s.store s.now leases.grants) (c : ClientId)
    {resource value : String} {ttl : ℕ} (hfresh : leases value = none) {store : Store String String}
    (hs : setLock s.store s.now resource value ttl = some store) :
    Agree store s.now (Leases.grants
      (Function.update leases value (some ⟨c, resource, s.now + nanos (asSecs ttl)⟩))) := by
  obtain ⟨secs, hsecs, hset⟩ := Option.bind_eq_some_iff.1 hs
  have heq : asSecs ttl = secs := by
    unfold expiration at hsecs
    split_ifs at hsecs
    exact Option.some.inj hsecs
  have hnone : leases.grants value = none := by rw [Leases.grants, hfresh, Option.map_none]
  rw [grants_update, heq]
  exact h.setIfAbsent hnone hset

/-- Only the clock, the removal of expired keys, and what Redis executes matter to the leases. -/
theorem agree_effect (h : Agree s.store s.now leases.grants) (hfresh : Fresh (s, leases) a)
    {store : Store String String} {now : ℕ} (he : Effect s a store now) :
    Agree store now (leases.note s a).grants := by
  cases he with
  | elapse d => exact h.elapse (Nat.le_add_right ..)
  | evict key => exact h.evict key
  | acquired hanswer hset =>
      have hsome : (setLock s.store s.now _ _ _).isSome := Option.isSome_of_eq_some hset
      rw [Leases.note, if_pos ⟨hanswer, hsome⟩]
      exact agree_setLock h _ (hfresh _ _ _ _ _ rfl) hset
  | refused hrefused =>
      rw [Leases.note, if_neg hrefused]
      exact h
  | evaluated hanswer heval =>
      have hsome := Option.isSome_of_eq_some heval
      rw [Leases.note, if_pos ⟨hanswer, hsome⟩]
      exact agree_eval h heval
  | unanswered hunanswered =>
      rw [Leases.note, if_neg hunanswered]
      exact h
  | release | refresh | startRefresh | tick | abort | drop => exact h

theorem linked_step (h : Linked (s, leases)) (hfresh : Fresh (s, leases) a)
    (hstep : system.step s a = some s') : Linked (s', leases.note s a) :=
  agree_effect h hfresh (step_effect hstep)

theorem Linked.exclusive (h : Linked (s, leases)) {lock lock' : DistributedLock}
    (hl : Holds (s, leases) lock) (hl' : Holds (s, leases) lock')
    (hr : lock.resource = lock'.resource) : lock = lock' := by
  obtain ⟨u, hlease, hu⟩ := hl
  obtain ⟨u', hlease', hu'⟩ := hl'
  have hgrant : leases.grants lock.value = some (lockKey lock.resource, u) :=
    grants_eq_some_iff.2 ⟨_, hlease, rfl, rfl⟩
  have hgrant' : leases.grants lock'.value = some (lockKey lock.resource, u') :=
    grants_eq_some_iff.2 ⟨_, hlease', congrArg lockKey hr.symm, rfl⟩
  have hvalue : lock.value = lock'.value := Agree.exclusive h hgrant hgrant' hu hu'
  rw [← hvalue] at hlease'
  have hclient := congrArg Lease.client (Option.some.inj (hlease.symm.trans hlease'))
  obtain ⟨c, resource, value⟩ := lock
  obtain ⟨c', resource', value'⟩ := lock'
  obtain rfl : c = c' := hclient
  obtain rfl : resource = resource' := hr
  obtain rfl : value = value' := hvalue
  rfl

theorem Linked.owns_of_eval (h : Linked (s, leases)) {script : Script}
    {store : Store String String} (he : script.eval s.now s.store = some store) :
    Owns (s, leases) script := by
  obtain ⟨u, hgrant, hu⟩ := (Agree.owned_iff h).1 (owned_of_eval he)
  obtain ⟨l, hl, hkey, hexpires⟩ := grants_eq_some_iff.1 hgrant
  refine ⟨⟨l.client, l.resource, script.value⟩, ⟨u, ?_, hu⟩, hkey, rfl⟩
  rw [← hexpires]
  exact hl

theorem Linked.owned (h : Linked (s, leases)) : Owned (s, leases) := by
  constructor
  · intro lock lock' hl hl' hr
    exact h.exclusive hl hl' hr
  · intro issued answer s' hnot hstep
    obtain ⟨-, hstep⟩ := Option.ite_none_right_eq_some.1 hstep
    cases hstep
    cases heval : issued.script.eval s.now s.store with
    | none =>
        simp only [State.executed, heval]
    | some store => exact absurd (h.owns_of_eval heval) hnot

end Steps

/-- In any run a resource has one holder at most, and a release or refresh of a client that does not
hold the lock changes nothing, whenever it is executed. -/
theorem lock_ownership {run : List Label} (hC : leasing.Along Fresh leasing.init run) :
    leasing.Throughout Owned leasing.init run := by
  have hgood : ∀ x a y, Linked x → Fresh x a → leasing.step x a = some y → Linked y := by
    rintro ⟨s, leases⟩ a y h hfresh hstep
    obtain ⟨s', hs', rfl⟩ := TransitionSystem.exists_of_observe_step hstep
    exact linked_step h hfresh hs'
  exact TransitionSystem.throughout_of_along (fun _ h => Linked.owned h) hgood (Agree.empty 0) hC

/-- A lock is dropped and expires, and its release comes when another client has the resource. -/
def lateRelease : List Label :=
  [.tryAcquire 0 "job" "a" 5000000000 .answered, .drop ⟨0, "job", "a"⟩, .elapse 6000000000,
    .tryAcquire 1 "job" "b" 5000000000 .answered,
    .execute ⟨.release "rszero:lock:job" "a", false⟩ .answered]

theorem lock_ownership_lateRelease : leasing.Throughout Owned leasing.init lateRelease := by
  apply lock_ownership
  refine TransitionSystem.along_cons ?_ rfl ?_
  · rintro _ _ _ _ _ ⟨⟩
    rfl
  apply TransitionSystem.along_cons nofun rfl
  apply TransitionSystem.along_cons nofun rfl
  refine TransitionSystem.along_cons ?_ rfl ?_
  · rintro _ _ _ _ _ ⟨⟩
    rfl
  apply TransitionSystem.along_cons nofun rfl
  trivial

end Rszero.RedisLock
