import Rszero.MemCacheRuns

/-!
# The entry that an insertion throws away

In a map with one entry for each key, an insertion leaves every other entry as it was, the evicted
one apart: an expired entry if there is one, otherwise one that expires first.
-/

namespace Rszero.MemCache

variable {K V : Type}

namespace Cache

theorem oldest_le {keys : List (K × Instant)} {e e' : K × Instant} (h : oldest keys = some e)
    (he' : e' ∈ keys) : e.2 ≤ e'.2 := by
  induction keys generalizing e e' with
  | nil => cases he'
  | cons head rest ih =>
      obtain ⟨key, t⟩ := head
      cases hrest : oldest rest with
      | none =>
          simp only [oldest, hrest, Option.some.injEq] at h
          subst h
          rw [oldest_eq_none_iff.1 hrest] at he'
          exact List.mem_singleton.1 he' ▸ le_rfl
      | some first =>
          simp only [oldest, hrest] at h
          split_ifs at h with hlt
          · obtain rfl := Option.some.inj h
            rcases List.mem_cons.1 he' with rfl | hmem
            · exact hlt.le
            · exact ih hrest hmem
          · obtain rfl := Option.some.inj h
            rcases List.mem_cons.1 he' with rfl | hmem
            · exact le_rfl
            · exact (not_lt.1 hlt).trans (ih hrest hmem)

def Keyed (cache : Cache K V) : Prop := (cache.entries.map Prod.fst).Nodup

theorem keyed_new (capacity : ℕ) : (Cache.new capacity : Cache K V).Keyed := List.nodup_nil

variable [DecidableEq K] {cache : Cache K V} {key : K} {entry : CacheEntry V}

theorem Keyed.lookup_eq_some_iff (h : cache.Keyed) :
    cache.lookup key = some entry ↔ (key, entry) ∈ cache.entries :=
  AssocList.lookup_eq_some_iff h

theorem Keyed.remove (h : cache.Keyed) (key : K) : (cache.remove key).Keyed :=
  List.Nodup.sublist (List.filter_sublist.map Prod.fst) h

theorem Keyed.insert (h : cache.Keyed) (key : K) (entry : CacheEntry V) :
    (cache.insert key entry).Keyed := by
  refine List.nodup_cons.2 ⟨fun hmem => ?_, h.remove key⟩
  obtain ⟨e, he, hkey⟩ := List.mem_map.1 hmem
  exact of_decide_eq_true (List.mem_filter.1 he).2 hkey

theorem Keyed.setWithTtl (h : cache.Keyed) (iter : Iteration K V) (key : K) (value : V)
    (ttl : Option Duration) (now : Instant) : (cache.setWithTtl iter key value ttl now).Keyed := by
  rw [setWithTtl_eq]
  cases (Operation.setWithTtl iter key value ttl).victim cache now with
  | none => exact h.insert _ _
  | some victim => exact (h.remove victim).insert _ _

end Cache

variable [DecidableEq K]

theorem keyed_perform {cache : Cache K V} (h : cache.Keyed) (now : Instant)
    (op : Operation K V) : (op.perform cache now).2.Keyed := by
  cases op with
  | setWithTtl iter key value ttl => exact h.setWithTtl iter key value ttl now
  | get key | contains key =>
      simp only [Operation.perform, Cache.contains, Cache.get]
      split_ifs
      · exact h.remove key
      · exact h
  | delete key => exact h.remove key
  | clear => exact List.nodup_nil

/-- No operation stores two entries under one key. -/
theorem keyed_of_reachable {capacity : ℕ} {C : State K V → Label K V → Prop} {s : State K V}
    (h : (system K V capacity).Reachable C s) : s.cache.Keyed := by
  refine h.invariant (I := fun s => s.cache.Keyed) (Cache.keyed_new capacity) ?_
  intro s a s' hs _ hstep
  exact Option.some.inj hstep ▸ keyed_perform hs _ a.operation

namespace Cache

variable {cache : Cache K V} {iter : Iteration K V} {key victim : K} {entry : CacheEntry V}
  {now : Instant}

structure Evictable (cache : Cache K V) (now : Instant) (victim : K) (entry : CacheEntry V) :
    Prop where
  stored : cache.lookup victim = some entry
  expired : (∃ key entry', cache.lookup key = some entry' ∧ entry'.isExpired now) →
    entry.isExpired now
  first : ∃ t, entry.expires_at = some t ∧ (entry.isExpired now = false →
    ∀ key entry' t', cache.lookup key = some entry' → entry'.expires_at = some t' → t ≤ t')

theorem evictable_of_evictee (h : cache.Keyed) (hv : evictee iter cache now = some victim) :
    ∃ entry, cache.Evictable now victim entry := by
  have hmem (e : K × CacheEntry V) : e ∈ iter.order cache.entries ↔ e ∈ cache.entries :=
    (iter.perm _).mem_iff
  unfold evictee at hv
  split at hv
  · rename_i e hfind
    obtain rfl := Option.some.inj hv
    have hexpired := List.find?_some hfind
    obtain ⟨t, ht, -⟩ := isExpired_iff.1 hexpired
    exact ⟨_, h.lookup_eq_some_iff.2 ((hmem _).1 (List.mem_of_find?_eq_some hfind)),
      fun _ => hexpired, t, ht, fun hlive => absurd hexpired (by simp [hlive])⟩
  · rename_i hfind
    obtain ⟨first, hold, rfl⟩ := Option.map_eq_some_iff.1 hv
    obtain ⟨e, he, hfirst⟩ := List.mem_filterMap.1 (oldest_mem hold)
    obtain ⟨t, ht, rfl⟩ := Option.map_eq_some_iff.1 hfirst
    refine ⟨e.2, h.lookup_eq_some_iff.2 ((hmem _).1 he), ?_, t, ht, ?_⟩
    · rintro ⟨key, entry', hlookup, hexpired⟩
      have hin := (hmem _).2 (h.lookup_eq_some_iff.1 hlookup)
      exact absurd hexpired (List.find?_eq_none.1 hfind _ hin)
    · intro _ key entry' t' hlookup ht'
      have hin := (hmem _).2 (h.lookup_eq_some_iff.1 hlookup)
      have hkeys : (key, t') ∈ (iter.order cache.entries).filterMap
          (fun e => e.2.expires_at.map (fun t => (e.1, t))) :=
        List.mem_filterMap.2 ⟨_, hin, by simp [ht']⟩
      exact oldest_le hold hkeys

theorem lookup_setWithTtl_of_ne {value : V} {ttl : Option Duration} {other : K}
    (hne : other ≠ key)
    (hv : (Operation.setWithTtl iter key value ttl).victim cache now ≠ some other) :
    (cache.setWithTtl iter key value ttl now).lookup other = cache.lookup other := by
  rw [setWithTtl_eq, lookup_insert_of_ne hne]
  cases hvictim : (Operation.setWithTtl iter key value ttl).victim cache now with
  | none => rfl
  | some victim =>
      have hother : other ≠ victim := fun heq => hv (hvictim.trans (congrArg some heq.symm))
      exact lookup_remove_of_ne hother

/-- With room for the key nothing is evicted. -/
theorem lookup_setWithTtl_of_room {value : V} {ttl : Option Duration} {other : K}
    (hroom : (cache.lookup key).isSome ∨ cache.len < cache.capacity) (hne : other ≠ key) :
    (cache.setWithTtl iter key value ttl now).lookup other = cache.lookup other := by
  refine lookup_setWithTtl_of_ne hne ?_
  have hkeep : ¬ (cache.len ≥ cache.capacity ∧ cache.lookup key = none) := by
    rintro ⟨hfull, hmissing⟩
    rcases hroom with hsome | hlt
    · simp [hmissing] at hsome
    · omega
  rw [Operation.victim, if_neg hkeep]
  exact (Option.some_ne_none other).symm

/-- Permanent entries stay. -/
theorem lookup_setWithTtl_of_permanent {value : V} {ttl : Option Duration} {other : K}
    (h : cache.Keyed)
    (hnone : ∀ other entry, cache.lookup other = some entry → entry.expires_at = none)
    (hne : other ≠ key) :
    (cache.setWithTtl iter key value ttl now).lookup other = cache.lookup other := by
  refine lookup_setWithTtl_of_ne hne ?_
  have hstay : evictee iter cache now = none :=
    evictee_eq_none_iff.2 (fun e he => hnone e.1 e.2 (h.lookup_eq_some_iff.2 he))
  rw [Operation.victim, hstay, ite_self]
  exact (Option.some_ne_none other).symm

/-- A full cache throws one entry away, if one of them expires at all. -/
theorem exists_evicted {value : V} {ttl : Option Duration} (h : cache.Keyed)
    (hmissing : cache.lookup key = none) (hfull : cache.capacity ≤ cache.len)
    (hexpiring : ∃ other entry, cache.lookup other = some entry ∧ entry.expires_at.isSome) :
    ∃ victim entry, cache.Evictable now victim entry ∧
      (cache.setWithTtl iter key value ttl now).lookup victim = none ∧
      ∀ other ≠ key, other ≠ victim →
        (cache.setWithTtl iter key value ttl now).lookup other = cache.lookup other := by
  obtain ⟨other, entry, hlookup, hsome⟩ := hexpiring
  have hexpiry : ∃ e ∈ cache.entries, e.2.expires_at.isSome :=
    ⟨_, h.lookup_eq_some_iff.1 hlookup, hsome⟩
  have hvictimNe : (Operation.setWithTtl iter key value ttl).victim cache now ≠ none :=
    victim_ne_none hfull hmissing hexpiry
  obtain ⟨victim, hvictim⟩ := Option.ne_none_iff_exists'.1 hvictimNe
  have hevictee : evictee iter cache now = some victim := by
    rwa [Operation.victim, if_pos ⟨hfull, hmissing⟩] at hvictim
  obtain ⟨gone, hgone⟩ := evictable_of_evictee h hevictee
  have hkey : victim ≠ key := by
    rintro rfl
    simp [hgone.stored] at hmissing
  refine ⟨victim, gone, hgone, ?_, ?_⟩
  · rw [setWithTtl_eq, hvictim, Option.elim_some, lookup_insert_of_ne hkey, lookup_remove]
  · intro other' hne' hother
    refine lookup_setWithTtl_of_ne hne' ?_
    rw [hvictim]
    exact fun heq => hother (Option.some.inj heq).symm

/-- An insertion changes its own key, and in a full cache it may throw away one evictable entry. -/
theorem setWithTtl_disturbs_nothing_else (h : cache.Keyed) (iter : Iteration K V) (key : K)
    (value : V) (ttl : Option Duration) (now : Instant) :
    (cache.setWithTtl iter key value ttl now).lookup key = some (.new value ttl now) ∧
      ((cache.lookup key).isSome ∨ cache.len < cache.capacity →
        ∀ other ≠ key, (cache.setWithTtl iter key value ttl now).lookup other =
          cache.lookup other) ∧
      ((∀ other entry, cache.lookup other = some entry → entry.expires_at = none) →
        ∀ other ≠ key, (cache.setWithTtl iter key value ttl now).lookup other =
          cache.lookup other) ∧
      (cache.lookup key = none → cache.capacity ≤ cache.len →
        (∃ other entry, cache.lookup other = some entry ∧ entry.expires_at.isSome) →
        ∃ victim entry, cache.Evictable now victim entry ∧
          (cache.setWithTtl iter key value ttl now).lookup victim = none ∧
          ∀ other ≠ key, other ≠ victim →
            (cache.setWithTtl iter key value ttl now).lookup other = cache.lookup other) :=
  ⟨lookup_setWithTtl .., fun hroom _ hne => lookup_setWithTtl_of_room hroom hne,
    fun hnone _ hne => lookup_setWithTtl_of_permanent h hnone hne, exists_evicted h⟩

/-- The entry that expires first goes, not the permanent one. -/
theorem setWithTtl_disturbs_nothing_else_full :
    let cache : Cache String ℕ :=
      ⟨[("a", ⟨1, none⟩), ("b", ⟨2, some 9⟩), ("c", ⟨3, some 7⟩)], 3⟩
    (cache.setWithTtl ⟨id, fun _ => .rfl⟩ "d" 4 none 5).lookup "c" = none ∧
      ∀ other ≠ "d", other ≠ "c" →
        (cache.setWithTtl ⟨id, fun _ => .rfl⟩ "d" 4 none 5).lookup other = cache.lookup other := by
  intro cache
  have hkeyed : cache.Keyed := by simp [cache, Keyed]
  obtain ⟨victim, entry, -, hgone, hrest⟩ :=
    (setWithTtl_disturbs_nothing_else hkeyed ⟨id, fun _ => .rfl⟩ "d" 4 none 5).2.2.2
      rfl le_rfl ⟨"b", _, rfl, rfl⟩
  have hvictim : victim = "c" := by
    by_contra hne
    have hd : ("c" : String) ≠ "d" := by decide
    have hc := hrest "c" hd (Ne.symm hne)
    exact absurd (congrArg (Option.map CacheEntry.value) hc) (by decide)
  exact hvictim ▸ ⟨hgone, hrest⟩

end Cache
end Rszero.MemCache
