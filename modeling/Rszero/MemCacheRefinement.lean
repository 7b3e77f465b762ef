import Mathlib.Logic.Function.Basic
import Rszero.MemCacheRuns

/-!
# The in-process cache and the expiring map

The abstract layer is the map with the entry that was last set under each key. The cache has fewer
keys than this map: an expired entry goes when it is read, and an insertion at full capacity evicts
another key.
-/

namespace Rszero.MemCache

variable {K V : Type} [DecidableEq K]

/-- The entry that was last set under each key. -/
abbrev ExpiringMap (K V : Type) := K → Option (CacheEntry V)

def ExpiringMap.perform (map : ExpiringMap K V) (now : Instant) : Operation K V → ExpiringMap K V
  | .setWithTtl _ key value ttl => Function.update map key (some (.new value ttl now))
  | .get _ | .contains _ => map
  | .delete key => Function.update map key none
  | .clear => fun _ => none

/-- The expiring map, and the keys evicted since they were last set. -/
structure History (K V : Type) where
  map : ExpiringMap K V
  evicted : List K

def History.next (h : History K V) (s : State K V) (a : Label K V) : History K V where
  map := h.map.perform (s.now + a.elapsed) a.operation
  evicted :=
    match a.operation with
    | .setWithTtl _ key _ _ =>
        ((a.operation.victim s.cache (s.now + a.elapsed)).toList ++ h.evicted).filter (· ≠ key)
    | _ => h.evicted

def withHistory (K V : Type) [DecidableEq K] (capacity : ℕ) :
    TransitionSystem (State K V × History K V) (Label K V) :=
  (system K V capacity).observe ⟨fun _ => none, []⟩ (fun h s a _ => h.next s a)

namespace Operation

variable {op : Operation K V} {cache cache' : Cache K V} {now : Instant} {key : K}

/-- Another key keeps its entry unless it is evicted or the cache is cleared. -/
theorem lookup_perform (hne : op.key ≠ some key) :
    (op.perform cache now).2.lookup key = cache.lookup key ∨
      (op.perform cache now).2.lookup key = none ∧
        (op = .clear ∨ op.victim cache now = some key) := by
  cases op with
  | setWithTtl iter key' value ttl =>
      have hkey : key ≠ key' := fun h => hne (congrArg some h.symm)
      simp only [perform, Cache.setWithTtl_eq, Cache.lookup_insert_of_ne hkey]
      cases hvictim : (Operation.setWithTtl iter key' value ttl).victim cache now with
      | none => exact .inl rfl
      | some key'' =>
          by_cases hkey' : key = key''
          · subst hkey'
            exact .inr ⟨Cache.lookup_remove .., .inr rfl⟩
          · exact .inl (Cache.lookup_remove_of_ne hkey')
  | get key' | contains key' =>
      have hkey : key ≠ key' := fun h => hne (congrArg some h.symm)
      simp only [perform, Cache.contains, Cache.get]
      split_ifs
      · exact .inl (Cache.lookup_remove_of_ne hkey)
      · exact .inl rfl
  | delete key' =>
      have hkey : key ≠ key' := fun h => hne (congrArg some h.symm)
      exact .inl (Cache.lookup_remove_of_ne hkey)
  | clear => exact .inr ⟨rfl, .inl rfl⟩

/-- What an operation returns depends on the entry of its key alone. -/
theorem output_congr (h : ∀ key, op.key = some key → cache'.lookup key = cache.lookup key) :
    (op.perform cache' now).1 = (op.perform cache now).1 := by
  cases op with
  | setWithTtl | clear => rfl
  | get key | contains key =>
      simp only [perform, Cache.contains, Cache.get, h key rfl]
      split_ifs <;> rfl
  | delete key => simp only [perform, Cache.delete, h key rfl]

end Operation

theorem ExpiringMap.perform_of_ne (map : ExpiringMap K V) (now : Instant) {op : Operation K V}
    {key : K} (hne : op.key ≠ some key) (hclear : op ≠ .clear) :
    map.perform now op key = map key := by
  cases op with
  | setWithTtl iter key' value ttl | delete key' =>
      exact Function.update_of_ne (fun h => hne (congrArg some h.symm)) _ _
  | get key' | contains key' => rfl
  | clear => exact absurd rfl hclear

section Refinement

variable {capacity : ℕ} {s : State K V} {h : History K V} {a : Label K V} {key : K}

/-- What the cache has under the key is in the map, and what it lacks has expired or was evicted. -/
structure Refines (s : State K V) (h : History K V) (key : K) : Prop where
  stored : ∀ entry, s.cache.lookup key = some entry → h.map key = some entry
  missing : s.cache.lookup key = none → h.map key = none ∨
    (∃ entry, h.map key = some entry ∧ entry.isExpired s.now) ∨ key ∈ h.evicted

theorem CacheEntry.isExpired_mono {entry : CacheEntry V} {now now' : Instant} (hle : now ≤ now')
    (hexpired : entry.isExpired now) : entry.isExpired now' := by
  obtain ⟨t, ht, hlt⟩ := Cache.isExpired_iff.1 hexpired
  exact Cache.isExpired_iff.2 ⟨t, ht, hlt.trans_le hle⟩

theorem mem_evicted_of_ne (hne : a.operation.key ≠ some key) (hmem : key ∈ h.evicted) :
    key ∈ (h.next s a).evicted := by
  obtain ⟨elapsed, op⟩ := a
  cases op with
  | setWithTtl iter key' value ttl =>
      have hkey : key ≠ key' := fun heq => hne (congrArg some heq.symm)
      exact List.mem_filter.2 ⟨List.mem_append_right _ hmem, decide_eq_true hkey⟩
  | _ => exact hmem

theorem mem_evicted_of_victim (hne : a.operation.key ≠ some key)
    (hvictim : a.operation.victim s.cache (s.now + a.elapsed) = some key) :
    key ∈ (h.next s a).evicted := by
  obtain ⟨elapsed, op⟩ := a
  cases op with
  | setWithTtl iter key' value ttl =>
      have hkey : key ≠ key' := fun heq => hne (congrArg some heq.symm)
      refine List.mem_filter.2 ⟨List.mem_append_left _ ?_, decide_eq_true hkey⟩
      exact Option.mem_toList.2 hvictim
  | _ => cases hvictim

namespace Refines

/-- What is missing stays so as the clock moves on. -/
theorem missing_mono (hr : Refines s h key) {now : Instant} (hle : s.now ≤ now)
    (hmissing : s.cache.lookup key = none) :
    h.map key = none ∨ (∃ entry, h.map key = some entry ∧ entry.isExpired now) ∨
      key ∈ h.evicted := by
  rcases hr.missing hmissing with hnone | ⟨entry, hentry, hexpired⟩ | hevicted
  · exact .inl hnone
  · exact .inr (.inl ⟨entry, hentry, CacheEntry.isExpired_mono hle hexpired⟩)
  · exact .inr (.inr hevicted)

theorem get_some (hr : Refines s h key) {now : Instant} {v : V}
    (hget : (s.cache.get key now).1 = some v) :
    ∃ entry, h.map key = some entry ∧ entry.value = v ∧ entry.isExpired now = false := by
  cases hlookup : s.cache.lookup key with
  | none => simp [Cache.get_of_none hlookup] at hget
  | some entry =>
      cases hexpired : entry.isExpired now with
      | true => simp [Cache.get_of_expired hlookup hexpired] at hget
      | false =>
          rw [Cache.get_of_live hlookup hexpired] at hget
          exact ⟨entry, hr.stored _ hlookup, Option.some.inj hget, hexpired⟩

theorem get_none (hr : Refines s h key) {now : Instant} (hle : s.now ≤ now)
    (hget : (s.cache.get key now).1 = none) :
    h.map key = none ∨ (∃ entry, h.map key = some entry ∧ entry.isExpired now) ∨
      key ∈ h.evicted := by
  cases hlookup : s.cache.lookup key with
  | none => exact hr.missing_mono hle hlookup
  | some entry =>
      cases hexpired : entry.isExpired now with
      | true => exact .inr (.inl ⟨entry, hr.stored _ hlookup, hexpired⟩)
      | false => simp [Cache.get_of_live hlookup hexpired] at hget

theorem next_of_ne (hr : Refines s h key) (hne : a.operation.key ≠ some key) :
    Refines (s.next a) (h.next s a) key := by
  have hle : s.now ≤ (s.next a).now := Nat.le_add_right ..
  rcases Operation.lookup_perform hne with hsame | ⟨hgone, hclear | hvictim⟩
  · by_cases hclear : a.operation = .clear
    · have hmap : (h.next s a).map key = none := by simp [History.next, hclear, ExpiringMap.perform]
      have hlookup : (s.next a).cache.lookup key = none := by
        simp [State.next, hclear, Operation.perform, Cache.clear, Cache.lookup]
      exact ⟨fun entry hentry => by simp [hlookup] at hentry, fun _ => .inl hmap⟩
    · have hmap : (h.next s a).map key = h.map key := ExpiringMap.perform_of_ne _ _ hne hclear
      refine ⟨fun entry hentry => ?_, fun hmissing => ?_⟩
      · exact hmap.trans (hr.stored entry (hsame.symm.trans hentry))
      · rw [hmap]
        refine (hr.missing_mono hle (hsame.symm.trans hmissing)).imp_right (Or.imp_right ?_)
        exact mem_evicted_of_ne hne
  · have hmap : (h.next s a).map key = none := by simp [History.next, hclear, ExpiringMap.perform]
    exact ⟨fun entry hentry => by simp [State.next, hgone] at hentry, fun _ => .inl hmap⟩
  · refine ⟨fun entry hentry => by simp [State.next, hgone] at hentry, fun _ => ?_⟩
    exact .inr (.inr (mem_evicted_of_victim hne hvictim))

theorem next_get (hr : Refines s h key) {now : Instant} (hle : s.now ≤ now) :
    Refines ⟨now, (s.cache.get key now).2⟩ h key := by
  cases hlookup : s.cache.lookup key with
  | none =>
      rw [Cache.get_of_none hlookup]
      exact ⟨hr.stored, hr.missing_mono hle⟩
  | some entry =>
      cases hexpired : entry.isExpired now with
      | true =>
          rw [Cache.get_of_expired hlookup hexpired]
          refine ⟨fun entry' hentry => by simp [Cache.lookup_remove] at hentry, fun _ => ?_⟩
          exact .inr (.inl ⟨entry, hr.stored _ hlookup, hexpired⟩)
      | false =>
          rw [Cache.get_of_live hlookup hexpired]
          exact ⟨hr.stored, hr.missing_mono hle⟩

theorem next (hr : Refines s h key) : Refines (s.next a) (h.next s a) key := by
  by_cases hkey : a.operation.key = some key
  · obtain ⟨elapsed, op⟩ := a
    cases op with
    | setWithTtl iter key' value ttl =>
        obtain rfl := Option.some.inj hkey
        have hlookup := Cache.lookup_setWithTtl iter s.cache key' value ttl (s.now + elapsed)
        refine ⟨fun entry hentry => ?_, fun hmissing => ?_⟩
        · exact (Function.update_self ..).trans (hlookup.symm.trans hentry)
        · exact absurd (hlookup.symm.trans hmissing) (Option.some_ne_none _)
    | get key' | contains key' =>
        obtain rfl := Option.some.inj hkey
        exact hr.next_get (Nat.le_add_right ..)
    | delete key' =>
        obtain rfl := Option.some.inj hkey
        have hlookup : (s.cache.remove key').lookup key' = none := Cache.lookup_remove ..
        refine ⟨fun entry hentry => ?_, fun _ => .inl (Function.update_self ..)⟩
        exact absurd (hlookup.symm.trans hentry).symm (Option.some_ne_none _)
    | clear => cases hkey
  · exact hr.next_of_ne hkey

end Refines

/-- A key is read as the value last set under it while its entry has not expired, and otherwise has
been deleted, has expired or was evicted. No operation answers with the entry of another key or
changes it, unless it evicts that key or clears the cache. -/
theorem refines_expiring_map (run : List (Label K V)) :
    ∃ x, (withHistory K V capacity).exec (withHistory K V capacity).init run = some x ∧
      (∀ key elapsed v, (x.1.cache.get key (x.1.now + elapsed)).1 = some v →
        ∃ entry, x.2.map key = some entry ∧ entry.value = v ∧
          entry.isExpired (x.1.now + elapsed) = false) ∧
      (∀ key elapsed, (x.1.cache.get key (x.1.now + elapsed)).1 = none →
        x.2.map key = none ∨
          (∃ entry, x.2.map key = some entry ∧ entry.isExpired (x.1.now + elapsed)) ∨
          key ∈ x.2.evicted) ∧
      ∀ (op : Operation K V) now,
        (∀ key, op.key ≠ some key →
          (op.perform x.1.cache now).2.lookup key = x.1.cache.lookup key ∨
            (op.perform x.1.cache now).2.lookup key = none ∧
              (op = .clear ∨ op.victim x.1.cache now = some key)) ∧
        ∀ cache : Cache K V, (∀ key, op.key = some key → cache.lookup key = x.1.cache.lookup key) →
          (op.perform cache now).1 = (op.perform x.1.cache now).1 := by
  obtain ⟨x, hexec⟩ := TransitionSystem.exists_exec_of_total (withHistory K V capacity)
    (fun x a => ⟨(x.1.next a, x.2.next x.1 a), rfl⟩) (withHistory K V capacity).init run
  have hrefines (key : K) : Refines x.1 x.2 key := by
    refine (withHistory K V capacity).exec_invariant (I := fun x => Refines x.1 x.2 key) ?_ ?_ hexec
    · intro x a y hr hstep
      exact Option.some.inj hstep ▸ hr.next
    · exact ⟨fun _ hentry => (nomatch hentry), fun _ => .inl rfl⟩
  refine ⟨x, hexec, ?_, ?_, ?_⟩
  · exact fun key elapsed v hget => (hrefines key).get_some hget
  · exact fun key elapsed hget => (hrefines key).get_none (Nat.le_add_right ..) hget
  · exact fun op now => ⟨fun key => Operation.lookup_perform, fun cache => Operation.output_congr⟩

end Refinement

end Rszero.MemCache
