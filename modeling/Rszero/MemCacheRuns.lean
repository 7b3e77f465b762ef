import Mathlib.Order.Lattice
import Rszero.MemCache
import Rszero.TransitionSystem

/-!
# Runs of the in-process cache

Every operation takes place at an instant of a clock that does not go back. An insertion at full
capacity evicts an entry, but only one with an expiry, so entries without a ttl outgrow the
capacity.
-/

namespace Rszero.MemCache

variable {K V : Type}

namespace Cache

variable {cache : Cache K V} {iter : Iteration K V} {key : K} {now : Instant}

theorem oldest_mem {keys : List (K × Instant)} {e : K × Instant} (h : oldest keys = some e) :
    e ∈ keys := by
  induction keys generalizing e with
  | nil => cases h
  | cons head rest ih =>
      obtain ⟨key, t⟩ := head
      cases hrest : oldest rest with
      | none =>
          simp only [oldest, hrest, Option.some.injEq] at h
          exact h ▸ List.mem_cons_self
      | some e' =>
          simp only [oldest, hrest] at h
          split_ifs at h
          · exact List.mem_cons_of_mem _ (ih (hrest.trans h))
          · exact Option.some.inj h ▸ List.mem_cons_self

theorem oldest_eq_none_iff {keys : List (K × Instant)} : oldest keys = none ↔ keys = [] := by
  cases keys with
  | nil => exact iff_of_true rfl rfl
  | cons head rest =>
      refine iff_of_false (fun h => ?_) (List.cons_ne_nil _ _)
      rw [oldest] at h
      split at h
      · split_ifs at h
      · cases h

theorem mem_of_evictee (h : evictee iter cache now = some key) :
    ∃ e ∈ cache.entries, e.1 = key := by
  unfold evictee at h
  split at h
  · rename_i e hfind
    obtain rfl := Option.some.inj h
    exact ⟨_, (iter.perm _).mem_iff.1 (List.mem_of_find?_eq_some hfind), rfl⟩
  · obtain ⟨e, hold, rfl⟩ := Option.map_eq_some_iff.1 h
    obtain ⟨entry, hmem, ht⟩ := List.mem_filterMap.1 (oldest_mem hold)
    obtain ⟨t, -, rfl⟩ := Option.map_eq_some_iff.1 ht
    exact ⟨entry, (iter.perm _).mem_iff.1 hmem, rfl⟩

/-- Nothing is evicted when no entry has an expiry. -/
theorem evictee_eq_none_iff :
    evictee iter cache now = none ↔ ∀ e ∈ cache.entries, e.2.expires_at = none := by
  have hmem (e : K × CacheEntry V) : e ∈ iter.order cache.entries ↔ e ∈ cache.entries :=
    (iter.perm _).mem_iff
  unfold evictee
  split
  · rename_i e hfind
    refine iff_of_false (Option.some_ne_none _) (fun h => ?_)
    have hexpired := List.find?_some hfind
    obtain ⟨t, ht, -⟩ := isExpired_iff.1 hexpired
    have hnone := h _ ((hmem _).1 (List.mem_of_find?_eq_some hfind))
    exact Option.some_ne_none t (ht.symm.trans hnone)
  · rw [Option.map_eq_none_iff, oldest_eq_none_iff, List.filterMap_eq_nil_iff]
    exact forall_congr' (fun e => imp_congr (hmem e) Option.map_eq_none_iff)

end Cache

variable [DecidableEq K]

inductive Operation (K V : Type)
  | setWithTtl (iter : Iteration K V) (key : K) (value : V) (ttl : Option Duration)
  | get (key : K)
  | contains (key : K)
  | delete (key : K)
  | clear

def Operation.set (iter : Iteration K V) (key : K) (value : V) : Operation K V :=
  .setWithTtl iter key value none

def Operation.key : Operation K V → Option K
  | .setWithTtl _ key _ _ | .get key | .contains key | .delete key => some key
  | .clear => none

inductive Output (V : Type)
  | unit
  | value (v : Option V)
  | bool (b : Bool)

def Operation.perform (cache : Cache K V) (now : Instant) : Operation K V → Output V × Cache K V
  | .setWithTtl iter key value ttl => (.unit, cache.setWithTtl iter key value ttl now)
  | .get key => (.value (cache.get key now).1, (cache.get key now).2)
  | .contains key => (.bool (cache.contains key now).1, (cache.contains key now).2)
  | .delete key => (.bool (cache.delete key).1, (cache.delete key).2)
  | .clear => (.unit, cache.clear)

/-- `set` is the insertion without a ttl. -/
theorem Operation.perform_set (iter : Iteration K V) (key : K) (value : V) (cache : Cache K V)
    (now : Instant) :
    (Operation.set iter key value).perform cache now = (.unit, cache.set iter key value now) := rfl

structure Label (K V : Type) where
  elapsed : Duration
  operation : Operation K V

structure State (K V : Type) where
  now : Instant
  cache : Cache K V

def State.next (s : State K V) (a : Label K V) : State K V :=
  ⟨s.now + a.elapsed, (a.operation.perform s.cache (s.now + a.elapsed)).2⟩

def system (K V : Type) [DecidableEq K] (capacity : ℕ) :
    TransitionSystem (State K V) (Label K V) where
  init := ⟨0, .new capacity⟩
  step s a := some (s.next a)

def Operation.victim (cache : Cache K V) (now : Instant) : Operation K V → Option K
  | .setWithTtl iter key _ _ =>
      if cache.len ≥ cache.capacity ∧ cache.lookup key = none then cache.evictee iter now else none
  | _ => none

namespace Cache

variable {cache : Cache K V} {iter : Iteration K V} {key key' : K} {now : Instant}

theorem isSome_lookup_iff : (cache.lookup key).isSome ↔ ∃ e ∈ cache.entries, e.1 = key := by
  rw [lookup, List.lookup_isSome_iff]
  exact exists_congr (fun e => and_congr_right (fun _ => beq_iff_eq.trans eq_comm))

theorem setWithTtl_eq (value : V) (ttl : Option Duration) :
    cache.setWithTtl iter key value ttl now =
      (((Operation.setWithTtl iter key value ttl).victim cache now).elim cache cache.remove).insert
        key (.new value ttl now) := by
  simp only [setWithTtl, Operation.victim, evict]
  split_ifs
  · cases evictee iter cache now <;> rfl
  · rfl

theorem len_remove_le (cache : Cache K V) (key : K) : (cache.remove key).len ≤ cache.len :=
  List.length_filter_le ..

theorem len_remove_lt (h : ∃ e ∈ cache.entries, e.1 = key) :
    (cache.remove key).len < cache.len := by
  obtain ⟨e, he, hkey⟩ := h
  exact List.length_filter_lt_length_iff_exists.2 ⟨e, he, by simp [hkey]⟩

theorem len_insert (entry : CacheEntry V) :
    (cache.insert key entry).len = (cache.remove key).len + 1 := rfl

theorem remove_eq_self (h : cache.lookup key = none) : cache.remove key = cache := by
  rw [lookup, List.lookup_eq_none_iff] at h
  have hfilter : cache.entries.filter (fun e => e.1 ≠ key) = cache.entries := by
    refine List.filter_eq_self.2 (fun e he => decide_eq_true ?_)
    exact (bne_iff_ne.1 (h e he)).symm
  rw [remove, hfilter]

end Cache

/-- A key that is set in a full cache is there already, or some entry has an expiry. -/
def HasRoom (s : State K V) (a : Label K V) : Prop :=
  match a.operation with
  | .setWithTtl _ key _ _ =>
      s.cache.len < s.cache.capacity ∨ (s.cache.lookup key).isSome ∨
        ∃ e ∈ s.cache.entries, e.2.expires_at.isSome
  | _ => True

structure Within (capacity : ℕ) (s : State K V) : Prop where
  capacity_eq : s.cache.capacity = capacity
  len_le : s.cache.len ≤ capacity

section Capacity

variable {capacity : ℕ} {s : State K V} {a : Label K V}

theorem victim_ne_none {iter : Iteration K V} {key : K} {value : V} {ttl : Option Duration}
    {cache : Cache K V} {now : Instant} (hfull : cache.capacity ≤ cache.len)
    (hmissing : cache.lookup key = none) (hexpiry : ∃ e ∈ cache.entries, e.2.expires_at.isSome) :
    (Operation.setWithTtl iter key value ttl).victim cache now ≠ none := by
  rw [Operation.victim, if_pos ⟨hfull, hmissing⟩, Ne, Cache.evictee_eq_none_iff]
  obtain ⟨e, he, hsome⟩ := hexpiry
  intro hall
  simp [hall e he] at hsome

theorem mem_of_victim {op : Operation K V} {cache : Cache K V} {now : Instant} {key : K}
    (h : op.victim cache now = some key) : ∃ e ∈ cache.entries, e.1 = key := by
  cases op with
  | setWithTtl =>
      simp only [Operation.victim] at h
      split_ifs at h
      exact Cache.mem_of_evictee h
  | _ => cases h

theorem Cache.len_setWithTtl_le {cache : Cache K V} {iter : Iteration K V} {key : K} (value : V)
    (ttl : Option Duration) (now : Instant) (hlen : cache.len ≤ cache.capacity)
    (hroom : cache.len < cache.capacity ∨ (cache.lookup key).isSome ∨
      ∃ e ∈ cache.entries, e.2.expires_at.isSome) :
    (cache.setWithTtl iter key value ttl now).len ≤ cache.capacity := by
  rw [setWithTtl_eq]
  cases hvictim : (Operation.setWithTtl iter key value ttl).victim cache now with
  | some key' =>
      have hlt := len_remove_lt (mem_of_victim hvictim)
      have hle := len_remove_le (cache.remove key') key
      rw [Option.elim_some, len_insert]
      omega
  | none =>
      have hle := len_remove_le cache key
      rw [Option.elim_none, len_insert]
      by_cases hthere : cache.lookup key = none
      · rcases hroom with hfree | hsome | hexpiry
        · omega
        · simp [hthere] at hsome
        · have hfree : ¬ cache.capacity ≤ cache.len := fun hfull =>
            victim_ne_none hfull hthere hexpiry hvictim
          omega
      · have hlt := len_remove_lt (isSome_lookup_iff.1 (Option.isSome_iff_ne_none.2 hthere))
        omega

theorem Within.next (h : Within capacity s) (hroom : HasRoom s a) : Within capacity (s.next a) := by
  obtain ⟨elapsed, op⟩ := a
  obtain ⟨rfl, hlen⟩ := h
  cases op with
  | setWithTtl iter key value ttl =>
      refine ⟨?_, Cache.len_setWithTtl_le value ttl _ hlen hroom⟩
      simp only [State.next, Operation.perform, Cache.setWithTtl_eq]
      cases (Operation.setWithTtl iter key value ttl).victim s.cache (s.now + elapsed) <;> rfl
  | get key | contains key =>
      refine ⟨?_, le_trans ?_ hlen⟩
      · simp only [State.next, Operation.perform, Cache.contains, Cache.get]
        split_ifs <;> rfl
      · simp only [State.next, Operation.perform, Cache.contains, Cache.get]
        split_ifs
        · exact Cache.len_remove_le ..
        · exact le_rfl
  | delete key => exact ⟨rfl, (Cache.len_remove_le ..).trans hlen⟩
  | clear => exact ⟨rfl, Nat.zero_le _⟩

theorem Within.not_next (h : Within capacity s) (hroom : ¬ HasRoom s a) :
    ¬ (s.next a).cache.len ≤ capacity := by
  obtain ⟨elapsed, op⟩ := a
  cases op with
  | setWithTtl iter key value ttl =>
      simp only [HasRoom, not_or, not_lt, not_exists, not_and, Option.not_isSome_iff_eq_none]
        at hroom
      obtain ⟨hfull, hmissing, hexpiry⟩ := hroom
      have hvictim : (Operation.setWithTtl iter key value ttl).victim s.cache (s.now + elapsed) =
          none := by
        rw [Operation.victim, if_pos ⟨hfull, hmissing⟩, Cache.evictee_eq_none_iff]
        exact hexpiry
      have hcapacity := h.capacity_eq
      simp only [State.next, Operation.perform, Cache.setWithTtl_eq, hvictim, Option.elim_none,
        Cache.len_insert, Cache.remove_eq_self hmissing]
      omega
  | _ => exact absurd trivial hroom

/-- The cache stays within its capacity exactly when a missing key is set in a full cache only
while some entry has an expiry. -/
theorem len_le_capacity_iff (run : List (Label K V)) :
    (system K V capacity).Throughout (fun s => s.cache.len ≤ capacity) (system K V capacity).init
        run ↔
      (system K V capacity).Along HasRoom (system K V capacity).init run := by
  obtain ⟨s', hexec⟩ := TransitionSystem.exists_exec_of_total (system K V capacity)
    (fun s a => ⟨s.next a, rfl⟩) (system K V capacity).init run
  refine TransitionSystem.throughout_iff_along (fun s h => Within.len_le h) ?_ ?_
    (I := Within capacity) ⟨rfl, Nat.zero_le _⟩ hexec
  · intro s a s' h hroom hstep
    exact Option.some.inj hstep ▸ h.next hroom
  · intro s a s' h hroom hstep
    exact Option.some.inj hstep ▸ h.not_next hroom

/-- Two keys without a ttl in a cache for one. -/
theorem len_gt_capacity :
    ∃ s', (system String ℕ 1).exec (system String ℕ 1).init
        [⟨0, .set ⟨id, fun _ => .rfl⟩ "a" 1⟩, ⟨0, .set ⟨id, fun _ => .rfl⟩ "b" 2⟩] = some s' ∧
      1 < s'.cache.len :=
  ⟨_, rfl, by decide⟩

end Capacity

end Rszero.MemCache
