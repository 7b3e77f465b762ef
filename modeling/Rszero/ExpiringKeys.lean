import Mathlib.Data.Option.Basic
import Mathlib.Logic.Function.Basic
import Mathlib.Tactic.Common

/-!
# Keys with expiry, and who was granted them

A store gives each key a value until an instant. A key is set when it is not live, and deleted or
extended by those who know its value. Who was granted what is another table, from values to keys and
instants; it agrees with the store when the live keys are the unexpired grants. Then a key has one
holder at most, and those who hold nothing change nothing.
-/

namespace Rszero.ExpiringKeys

variable {κ ν : Type*}

structure Entry (ν : Type*) where
  value : ν
  expiresAt : ℕ

abbrev Store (κ ν : Type*) := κ → Option (Entry ν)

def live (store : Store κ ν) (now : ℕ) (k : κ) : Option (Entry ν) :=
  (store k).filter (fun entry => now < entry.expiresAt)

/-- The owner of a live key is who knows its value. -/
def owned [DecidableEq ν] (store : Store κ ν) (now : ℕ) (k : κ) (v : ν) : Bool :=
  (live store now k).any (fun entry => entry.value = v)

/-- The store after the command, unless the key is live. -/
def setIfAbsent [DecidableEq κ] (store : Store κ ν) (now : ℕ) (k : κ) (v : ν) (ttl : ℕ) :
    Option (Store κ ν) :=
  if (live store now k).isSome then none
  else some (Function.update store k (some ⟨v, now + ttl⟩))

/-- The store after the command, unless the value is another. -/
def deleteIfOwned [DecidableEq κ] [DecidableEq ν] (store : Store κ ν) (now : ℕ) (k : κ) (v : ν) :
    Option (Store κ ν) :=
  if owned store now k v then some (Function.update store k none) else none

def extendIfOwned [DecidableEq κ] [DecidableEq ν] (store : Store κ ν) (now : ℕ) (k : κ) (v : ν)
    (ttl : ℕ) : Option (Store κ ν) :=
  if owned store now k v then some (Function.update store k (some ⟨v, now + ttl⟩)) else none

def evict [DecidableEq κ] (store : Store κ ν) (now : ℕ) (k : κ) : Store κ ν :=
  if (live store now k).isSome then store else Function.update store k none

section Live

variable {store : Store κ ν} {now : ℕ} {k k' : κ} {v : ν} {entry : Entry ν}

theorem live_eq_some_iff :
    live store now k = some entry ↔ store k = some entry ∧ now < entry.expiresAt := by
  simp [live, Option.filter_eq_some_iff]

theorem live_of_le {later : ℕ} (hle : now ≤ later) (h : live store later k = some entry) :
    live store now k = some entry := by
  obtain ⟨hentry, hlive⟩ := live_eq_some_iff.1 h
  exact live_eq_some_iff.2 ⟨hentry, by omega⟩

theorem live_congr {store' : Store κ ν} (h : store' k = store k) :
    live store' now k = live store now k := by
  rw [live, live, h]

theorem owned_iff [DecidableEq ν] :
    owned store now k v ↔ ∃ expiresAt, live store now k = some ⟨v, expiresAt⟩ := by
  constructor
  · intro h
    obtain ⟨⟨v', expiresAt⟩, hentry, hv⟩ := (Option.any_eq_true ..).1 h
    obtain rfl : v' = v := of_decide_eq_true hv
    exact ⟨expiresAt, hentry⟩
  · rintro ⟨expiresAt, h⟩
    simp [owned, h]

theorem owned_of_deleteIfOwned [DecidableEq κ] [DecidableEq ν] {store' : Store κ ν}
    (h : deleteIfOwned store now k v = some store') : owned store now k v := by
  unfold deleteIfOwned at h
  split_ifs at h with howned
  exact howned

theorem owned_of_extendIfOwned [DecidableEq κ] [DecidableEq ν] {store' : Store κ ν} {ttl : ℕ}
    (h : extendIfOwned store now k v ttl = some store') : owned store now k v := by
  unfold extendIfOwned at h
  split_ifs at h with howned
  exact howned

theorem live_update_of_ne [DecidableEq κ] (hne : k' ≠ k) (entry : Option (Entry ν)) :
    live (Function.update store k entry) now k' = live store now k' :=
  live_congr (Function.update_of_ne hne ..)

theorem live_update_self [DecidableEq κ] (entry : Option (Entry ν)) :
    live (Function.update store k entry) now k =
      entry.filter (fun entry => now < entry.expiresAt) := by
  rw [live, Function.update_self]

theorem live_setIfAbsent_self [DecidableEq κ] {ttl : ℕ} (hpos : 0 < ttl) {store' : Store κ ν}
    (hs : setIfAbsent store now k v ttl = some store') :
    live store' now k = some ⟨v, now + ttl⟩ := by
  unfold setIfAbsent at hs
  split_ifs at hs
  obtain rfl := Option.some.inj hs
  rw [live_update_self, Option.filter_some_pos]
  exact decide_eq_true (Nat.lt_add_of_pos_right hpos)

theorem live_extendIfOwned_self [DecidableEq κ] [DecidableEq ν] {ttl : ℕ} (hpos : 0 < ttl)
    (ho : owned store now k v) : ∃ store', extendIfOwned store now k v ttl = some store' ∧
      live store' now k = some ⟨v, now + ttl⟩ := by
  refine ⟨_, if_pos ho, ?_⟩
  rw [live_update_self, Option.filter_some_pos]
  exact decide_eq_true (Nat.lt_add_of_pos_right hpos)

/-- What others do leaves a live key alone. -/
theorem live_setIfAbsent [DecidableEq κ] (h : live store now k = some entry) {v' : ν} {ttl : ℕ}
    {store' : Store κ ν} (hs : setIfAbsent store now k' v' ttl = some store') :
    live store' now k = some entry := by
  unfold setIfAbsent at hs
  split_ifs at hs with hlive
  obtain rfl := Option.some.inj hs
  have hne : k ≠ k' := by
    rintro rfl
    rw [h] at hlive
    exact hlive rfl
  rw [live_update_of_ne hne]
  exact h

theorem ne_of_owned [DecidableEq ν] (h : live store now k = some entry) {v' : ν}
    (hv : v' ≠ entry.value) (ho : owned store now k' v') : k ≠ k' := by
  rintro rfl
  obtain ⟨u, hlive⟩ := owned_iff.1 ho
  exact hv (congrArg Entry.value (Option.some.inj (hlive.symm.trans h)))

theorem live_deleteIfOwned [DecidableEq κ] [DecidableEq ν] (h : live store now k = some entry)
    {v' : ν} (hv : v' ≠ entry.value) {store' : Store κ ν}
    (hs : deleteIfOwned store now k' v' = some store') : live store' now k = some entry := by
  have hne := ne_of_owned h hv (owned_of_deleteIfOwned hs)
  unfold deleteIfOwned at hs
  split_ifs at hs
  obtain rfl := Option.some.inj hs
  rw [live_update_of_ne hne]
  exact h

theorem live_extendIfOwned [DecidableEq κ] [DecidableEq ν] (h : live store now k = some entry)
    {v' : ν} (hv : v' ≠ entry.value) {ttl : ℕ} {store' : Store κ ν}
    (hs : extendIfOwned store now k' v' ttl = some store') : live store' now k = some entry := by
  have hne := ne_of_owned h hv (owned_of_extendIfOwned hs)
  unfold extendIfOwned at hs
  split_ifs at hs
  obtain rfl := Option.some.inj hs
  rw [live_update_of_ne hne]
  exact h

theorem live_evict [DecidableEq κ] (k' : κ) :
    live (evict store now k) now k' = live store now k' := by
  unfold evict
  split_ifs with h
  · rfl
  · by_cases hk : k' = k
    · subst hk
      rw [live_update_self, Option.not_isSome_iff_eq_none.1 h]
      rfl
    · exact live_update_of_ne hk none

end Live

/-- The key that a value was granted, and until when. -/
abbrev Grants (κ ν : Type*) := ν → Option (κ × ℕ)

/-- The live keys are the unexpired grants. -/
def Agree (store : Store κ ν) (now : ℕ) (grants : Grants κ ν) : Prop :=
  ∀ k v expiresAt, live store now k = some ⟨v, expiresAt⟩ ↔
    grants v = some (k, expiresAt) ∧ now < expiresAt

section Agree

variable {store store' : Store κ ν} {now ttl : ℕ} {grants : Grants κ ν} {k : κ} {v v' : ν}

theorem Agree.empty (now : ℕ) :
    Agree (fun _ => none : Store κ ν) now (fun _ => none) := by
  intro k v expiresAt
  simp [live]

/-- A key has one holder at most. -/
theorem Agree.exclusive (h : Agree store now grants) {u u' : ℕ} (hv : grants v = some (k, u))
    (hv' : grants v' = some (k, u')) (hu : now < u) (hu' : now < u') : v = v' := by
  have hlive := (h k v u).2 ⟨hv, hu⟩
  have hlive' := (h k v' u').2 ⟨hv', hu'⟩
  exact congrArg Entry.value (Option.some.inj (hlive.symm.trans hlive'))

/-- The owners are those with an unexpired grant. -/
theorem Agree.owned_iff [DecidableEq ν] (h : Agree store now grants) :
    owned store now k v ↔ ∃ u, grants v = some (k, u) ∧ now < u := by
  rw [ExpiringKeys.owned_iff]
  exact exists_congr (fun u => h k v u)

theorem Agree.elapse (h : Agree store now grants) {later : ℕ} (hle : now ≤ later) :
    Agree store later grants := by
  intro k v expiresAt
  constructor
  · intro hlive
    obtain ⟨-, hlater⟩ := live_eq_some_iff.1 hlive
    exact ⟨((h k v expiresAt).1 (live_of_le hle hlive)).1, hlater⟩
  · rintro ⟨hgrant, hlater⟩
    have hlater' : later < expiresAt := hlater
    obtain ⟨hentry, -⟩ := live_eq_some_iff.1 ((h k v expiresAt).2 ⟨hgrant, by omega⟩)
    exact live_eq_some_iff.2 ⟨hentry, hlater⟩

theorem Agree.evict [DecidableEq κ] (h : Agree store now grants) (k : κ) :
    Agree (evict store now k) now grants := by
  intro k' v expiresAt
  rw [live_evict]
  exact h k' v expiresAt

theorem Agree.eq_of_owned [DecidableEq ν] (h : Agree store now grants) (ho : owned store now k v) :
    (∀ v' u, live store now k = some ⟨v', u⟩ → v' = v) ∧
      ∀ k' u, grants v = some (k', u) → now < u → k' = k := by
  obtain ⟨expiresAt, hlive⟩ := ExpiringKeys.owned_iff.1 ho
  constructor
  · intro v' u hu
    exact congrArg Entry.value (Option.some.inj (hu.symm.trans hlive))
  · intro k' u hgrant _
    have hgrant' := ((h k v expiresAt).1 hlive).1
    exact congrArg Prod.fst (Option.some.inj (hgrant.symm.trans hgrant'))

variable [DecidableEq κ] [DecidableEq ν]

/-- The key of the value `v` gets the entry, and nobody else has the key. -/
theorem Agree.update (h : Agree store now grants) (entry : Option ℕ)
    (hk : ∀ v' u, live store now k = some ⟨v', u⟩ → v' = v)
    (hv : ∀ k' u, grants v = some (k', u) → now < u → k' = k) :
    Agree (Function.update store k (entry.map (fun u => ⟨v, u⟩))) now
      (Function.update grants v (entry.map (fun u => (k, u)))) := by
  intro k' v' u
  by_cases hkey : k' = k
  · subst hkey
    rw [live_update_self]
    by_cases hval : v' = v
    · subst hval
      rw [Function.update_self]
      cases entry with
      | none => simp
      | some u' =>
          simp only [Option.map_some, Option.filter_eq_some_iff, Option.some.injEq,
            decide_eq_true_eq, Entry.mk.injEq, Prod.mk.injEq, true_and]
    · rw [Function.update_of_ne hval]
      constructor
      · intro hlive
        cases entry with
        | none => cases hlive
        | some u' =>
            obtain ⟨hentry, -⟩ := Option.filter_eq_some_iff.1 hlive
            exact absurd (congrArg Entry.value (Option.some.inj hentry)).symm hval
      · intro hgrant
        exact absurd (hk v' u ((h k' v' u).2 hgrant)) hval
  · rw [live_update_of_ne hkey]
    by_cases hval : v' = v
    · subst hval
      rw [Function.update_self]
      constructor
      · intro hlive
        obtain ⟨hgrant, hu⟩ := (h k' v' u).1 hlive
        exact absurd (hv k' u hgrant hu) hkey
      · rintro ⟨hentry, -⟩
        cases entry with
        | none => cases hentry
        | some u' => exact absurd (congrArg Prod.fst (Option.some.inj hentry)).symm hkey
    · rw [Function.update_of_ne hval]
      exact h k' v' u

theorem Agree.setIfAbsent (h : Agree store now grants) (hfresh : grants v = none)
    (hs : setIfAbsent store now k v ttl = some store') :
    Agree store' now (Function.update grants v (some (k, now + ttl))) := by
  unfold ExpiringKeys.setIfAbsent at hs
  split_ifs at hs with hlive
  obtain rfl := Option.some.inj hs
  apply h.update (some (now + ttl))
  · intro v' u hu
    rw [hu] at hlive
    exact absurd rfl hlive
  · intro k' u hgrant
    rw [hfresh] at hgrant
    cases hgrant

theorem Agree.deleteIfOwned (h : Agree store now grants)
    (hs : deleteIfOwned store now k v = some store') :
    Agree store' now (Function.update grants v none) := by
  unfold ExpiringKeys.deleteIfOwned at hs
  split_ifs at hs with ho
  obtain rfl := Option.some.inj hs
  obtain ⟨hk, hv⟩ := h.eq_of_owned ho
  exact h.update none hk hv

theorem Agree.extendIfOwned (h : Agree store now grants)
    (hs : extendIfOwned store now k v ttl = some store') :
    Agree store' now (Function.update grants v (some (k, now + ttl))) := by
  unfold ExpiringKeys.extendIfOwned at hs
  split_ifs at hs with ho
  obtain rfl := Option.some.inj hs
  obtain ⟨hk, hv⟩ := h.eq_of_owned ho
  exact h.update (some (now + ttl)) hk hv

end Agree

end Rszero.ExpiringKeys
