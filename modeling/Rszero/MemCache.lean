import Mathlib.Data.List.Perm.Basic
import Mathlib.Data.Nat.Notation
import Rszero.AssocList

/-!
# The in-process cache

The entries of `Cache` with their expiry, its operations, and `set_with_ttl` with its eviction.
Instants and durations are counted in nanoseconds. A map is iterated in an order of its own, which
`Iteration` leaves open. A clone has its own copy of the entries, so here it is the cache itself.
-/

namespace Rszero.MemCache

abbrev Instant := ℕ

abbrev Duration := ℕ

structure CacheEntry (V : Type) where
  value : V
  expires_at : Option Instant

def CacheEntry.new {V : Type} (value : V) (ttl : Option Duration) (now : Instant) : CacheEntry V :=
  ⟨value, ttl.map (fun d => now + d)⟩

def CacheEntry.isExpired {V : Type} (entry : CacheEntry V) (now : Instant) : Bool :=
  (entry.expires_at.map (fun t => decide (now > t))).getD false

structure Cache (K V : Type) where
  entries : List (K × CacheEntry V)
  capacity : ℕ

/-- The order in which the map hands out its entries. -/
structure Iteration (K V : Type) where
  order : List (K × CacheEntry V) → List (K × CacheEntry V)
  perm : ∀ entries, (order entries).Perm entries

namespace Cache

variable {K V : Type} [DecidableEq K]

def new (capacity : ℕ) : Cache K V := ⟨[], capacity⟩

def lookup (cache : Cache K V) (key : K) : Option (CacheEntry V) := cache.entries.lookup key

def remove (cache : Cache K V) (key : K) : Cache K V :=
  { cache with entries := cache.entries.filter (fun e => e.1 ≠ key) }

def insert (cache : Cache K V) (key : K) (entry : CacheEntry V) : Cache K V :=
  { cache with entries := (key, entry) :: (cache.remove key).entries }

def len (cache : Cache K V) : ℕ := cache.entries.length

/-- The value with the cache it leaves: an expired entry is removed. -/
def get (cache : Cache K V) (key : K) (now : Instant) : Option V × Cache K V :=
  if (cache.lookup key).any (fun entry => entry.isExpired now) then (none, cache.remove key)
  else ((cache.lookup key).map CacheEntry.value, cache)

def oldest : List (K × Instant) → Option (K × Instant)
  | [] => none
  | (key, t) :: rest =>
      match oldest rest with
      | some (key', t') => if t' < t then some (key', t') else some (key, t)
      | none => some (key, t)

/-- The entry that makes room: an expired one, or the one that expires first. -/
def evictee (iter : Iteration K V) (cache : Cache K V) (now : Instant) : Option K :=
  match (iter.order cache.entries).find? (fun e => e.2.isExpired now) with
  | some (key, _) => some key
  | none =>
      (oldest ((iter.order cache.entries).filterMap (fun e =>
        e.2.expires_at.map (fun t => (e.1, t))))).map Prod.fst

def evict (iter : Iteration K V) (cache : Cache K V) (now : Instant) : Cache K V :=
  match evictee iter cache now with
  | some key => cache.remove key
  | none => cache

def setWithTtl (iter : Iteration K V) (cache : Cache K V) (key : K) (value : V)
    (ttl : Option Duration) (now : Instant) : Cache K V :=
  let room :=
    if cache.len ≥ cache.capacity ∧ cache.lookup key = none then evict iter cache now else cache
  room.insert key (.new value ttl now)

def set (iter : Iteration K V) (cache : Cache K V) (key : K) (value : V) (now : Instant) :
    Cache K V :=
  cache.setWithTtl iter key value none now

def contains (cache : Cache K V) (key : K) (now : Instant) : Bool × Cache K V :=
  ((cache.get key now).1.isSome, (cache.get key now).2)

def delete (cache : Cache K V) (key : K) : Bool × Cache K V :=
  ((cache.lookup key).isSome, cache.remove key)

def clear (cache : Cache K V) : Cache K V := { cache with entries := [] }

variable {cache : Cache K V} {key : K}

theorem lookup_insert (cache : Cache K V) (key : K) (entry : CacheEntry V) :
    (cache.insert key entry).lookup key = some entry := by
  simp [insert, lookup]

theorem lookup_remove (cache : Cache K V) (key : K) : (cache.remove key).lookup key = none :=
  AssocList.lookup_filter_ne key cache.entries

theorem lookup_remove_of_ne {key' : K} (hne : key' ≠ key) :
    (cache.remove key).lookup key' = cache.lookup key' :=
  AssocList.lookup_filter_of_ne hne cache.entries

theorem lookup_insert_of_ne {key' : K} (hne : key' ≠ key) (entry : CacheEntry V) :
    (cache.insert key entry).lookup key' = cache.lookup key' := by
  have hbeq : (key' == key) = false := beq_false_of_ne hne
  have hcons : (cache.insert key entry).lookup key' = (cache.remove key).lookup key' := by
    rw [insert, lookup, List.lookup_cons, hbeq]
    rfl
  exact hcons.trans (lookup_remove_of_ne hne)

theorem lookup_setWithTtl (iter : Iteration K V) (cache : Cache K V) (key : K) (value : V)
    (ttl : Option Duration) (now : Instant) :
    (cache.setWithTtl iter key value ttl now).lookup key = some (.new value ttl now) :=
  lookup_insert ..

theorem get_of_none (h : cache.lookup key = none) (now : Instant) :
    cache.get key now = (none, cache) := by
  simp [get, h]

theorem get_of_live {entry : CacheEntry V} {now : Instant} (h : cache.lookup key = some entry)
    (hlive : entry.isExpired now = false) : cache.get key now = (some entry.value, cache) := by
  simp [get, h, hlive]

theorem get_of_expired {entry : CacheEntry V} {now : Instant} (h : cache.lookup key = some entry)
    (hexpired : entry.isExpired now) : cache.get key now = (none, cache.remove key) := by
  simp [get, h, hexpired]

theorem isExpired_iff {entry : CacheEntry V} {now : Instant} :
    entry.isExpired now ↔ ∃ t, entry.expires_at = some t ∧ t < now := by
  cases h : entry.expires_at with
  | none => simp [CacheEntry.isExpired, h]
  | some t => simp [CacheEntry.isExpired, h]

end Cache
end Rszero.MemCache
