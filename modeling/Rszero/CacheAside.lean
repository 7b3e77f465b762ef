import Rszero.Error
import Rszero.MemCache
import Rszero.SingleFlightSteps

/-!
# Cache-aside loading

`cache_aside` and `cache_aside_singleflight` look up, load and store in the same way, but the second
one does so in a clone of the cache. `MemCache` clones its entries, so what is stored there is gone
with the clone. The loader reads and changes a world of its own.
-/

namespace Rszero.CacheAside

open MemCache

structure Request (W K V E : Type) where
  key : K
  ttl : Duration
  load : W → Except E V × W
  lookedUpAt : Instant
  storedAt : Instant
  lookedUp_le_stored : lookedUpAt ≤ storedAt

/-- What a call returns, the cache it was given as it leaves it, and how often it loaded. -/
structure Done (W K V E : Type) where
  result : Except E V
  cache : Cache K V
  world : W
  loads : ℕ

variable {W K V E : Type} [DecidableEq K] (iter : Iteration K V)

/-- The lookup, the load after a miss and the store after a load, on one cache. -/
def loadThrough (cache : Cache K V) (request : Request W K V E) (world : W) : Done W K V E :=
  match cache.get request.key request.lookedUpAt with
  | (some value, cache) => ⟨.ok value, cache, world, 0⟩
  | (none, cache) =>
      match request.load world with
      | (.error e, world) => ⟨.error e, cache, world, 1⟩
      | (.ok value, world) =>
          ⟨.ok value, cache.setWithTtl iter request.key value (some request.ttl) request.storedAt,
            world, 1⟩

def cacheAside (cache : Cache K V) (request : Request W K V E) (world : W) : Done W K V E :=
  loadThrough iter cache request world

/-- The closure works on the clone that it captures; a group runs the closure of a lone call once
and returns its result. -/
def cacheAsideSingleflight (cache : Cache K V) (request : Request W K V RszeroError) (world : W) :
    Done W K V RszeroError :=
  let clone := cache
  { loadThrough iter clone request world with cache := cache }

structure Run (K V E : Type) where
  results : List (Except E V)
  loads : ℕ
  cache : Cache K V

def runAll (call : Cache K V → Request W K V E → W → Done W K V E) (cache : Cache K V) (world : W) :
    List (Request W K V E) → Run K V E
  | [] => ⟨[], 0, cache⟩
  | request :: requests =>
      let done := call cache request world
      let rest := runAll call done.cache done.world requests
      ⟨done.result :: rest.results, done.loads + rest.loads, rest.cache⟩

section Alone

open SingleFlight

variable {R : Type} (key : CallId → String)

def callRun (c : CallId) (result : R) : List (Label R) :=
  [.begin c, .step c, .step c, .finish c result, .step c]

theorem caller_of_mem_callRun {c d : CallId} {result : R}
    (hd : d ∈ (callRun c result).map Label.caller) : d = c := by
  simpa [callRun, Label.caller] using hd

/-- A call that finds its key free and the lock not taken runs its closure, and leaves the map as it
was. -/
theorem alone_returns {s : SingleFlight.State R} {c : CallId} (hidle : s.calls c = .idle)
    (hfree : s.inflight (key c) = none) (hw : s.writer = none) (result : R) :
    ∃ s', (system R key).exec s (callRun c result) = some s' ∧
      s'.calls c = .returned result ∧ s'.inflight = s.inflight ∧ s'.writer = none := by
  simp only [callRun, TransitionSystem.exec, SingleFlight.system, SingleFlight.State.next, hidle,
    advance, lead, SingleFlight.State.put_calls_self, SingleFlight.State.put_writer,
    SingleFlight.State.put_inflight, Option.bind_some, hw, hfree, ne_eq, not_true_eq_false,
    if_false, Option.some.injEq, exists_eq_left', Function.update_idem, true_and, and_true]
  rw [← hfree, Function.update_eq_self]

def inTurn : CallId → List R → List (Label R)
  | _, [] => []
  | c, result :: results => callRun c result ++ inTurn (c + 1) results

theorem caller_of_mem_inTurn {c d : CallId} {results : List R}
    (hd : d ∈ (inTurn c results).map Label.caller) : c ≤ d := by
  induction results generalizing c with
  | nil => exact absurd hd List.not_mem_nil
  | cons result results ih =>
      rw [inTurn, List.map_append, List.mem_append] at hd
      rcases hd with hcall | hrest
      · exact Nat.le_of_eq (caller_of_mem_callRun hcall).symm
      · exact Nat.le_of_succ_le (ih hrest)

/-- In calls made one after another with one group, every call runs its closure and returns its
result. -/
theorem inTurn_returns {s : SingleFlight.State R} {c : CallId}
    (hidle : ∀ d, c ≤ d → s.calls d = .idle) (hfree : ∀ k, s.inflight k = none)
    (hw : s.writer = none) (results : List R) :
    ∃ s', (system R key).exec s (inTurn c results) = some s' ∧
      ∀ i result, results[i]? = some result → s'.calls (c + i) = .returned result := by
  induction results generalizing s c with
  | nil => exact ⟨s, rfl, fun i result h => by simp at h⟩
  | cons result results ih =>
      obtain ⟨t, hexec, hreturned, hinflight, hwriter⟩ :=
        alone_returns key (hidle c (Nat.le_refl c)) (hfree _) hw result
      have hidle' (d : CallId) (hd : c + 1 ≤ d) : t.calls d = .idle := by
        have hne : d ∉ (callRun c result).map Label.caller := by
          intro hmem
          exact Nat.ne_of_gt hd (caller_of_mem_callRun hmem)
        rw [exec_calls_of_ne hexec hne, hidle d (Nat.le_of_succ_le hd)]
      obtain ⟨s', hexec', hreturned'⟩ := ih hidle' (fun k => by rw [hinflight, hfree]) hwriter
      refine ⟨s', TransitionSystem.exec_append _ hexec hexec', ?_⟩
      intro i result' hi
      cases i with
      | zero =>
          obtain rfl : result = result' := by simpa using hi
          have hne : c ∉ (inTurn (c + 1) results).map Label.caller := by
            intro hmem
            exact Nat.not_succ_le_self c (caller_of_mem_inTurn hmem)
          exact (exec_calls_of_ne hexec' hne).trans hreturned
      | succ i =>
          have hrest := hreturned' i result' (by simpa using hi)
          rwa [Nat.add_right_comm] at hrest

end Alone

structure Agrees (run run' : Run K V E) : Prop where
  results : run.results = run'.results
  loads : run.loads = run'.loads
  contents : run.cache.lookup = run'.cache.lookup

/-- After each of the calls the two functions have done the same. -/
def Refines (cache : Cache K V) (world : W) (requests : List (Request W K V RszeroError)) : Prop :=
  ∀ made, made <+: requests → Agrees (runAll (cacheAside iter) cache world made)
    (runAll (cacheAsideSingleflight iter) cache world made)

/-- The call hits, or there is no entry under its key and its loader fails. -/
def LeavesCache (cache : Cache K V) (request : Request W K V E) (world : W) : Prop :=
  (∃ entry, cache.lookup request.key = some entry ∧
      entry.isExpired request.lookedUpAt = false) ∨
    cache.lookup request.key = none ∧ ∃ e, (request.load world).1 = .error e

def NeverStores (cache : Cache K V) (world : W) : List (Request W K V E) → Prop
  | [] => True
  | request :: requests => LeavesCache cache request world ∧
      NeverStores (cacheAside iter cache request world).cache
        (cacheAside iter cache request world).world requests

section Calls

variable {iter} {cache : Cache K V} {world : W}

theorem cache_of_leavesCache {request : Request W K V E} (h : LeavesCache cache request world) :
    (cacheAside iter cache request world).cache = cache := by
  unfold cacheAside loadThrough
  rcases h with ⟨entry, hentry, hlive⟩ | ⟨hnone, e, he⟩
  · rw [Cache.get_of_live hentry hlive]
  · rw [Cache.get_of_none hnone]
    cases hload : request.load world with
    | mk result world' =>
        obtain rfl : result = .error e := by rw [← he, hload]
        rfl

theorem lookup_of_not_leavesCache {request : Request W K V E}
    (h : ¬ LeavesCache cache request world) :
    (cacheAside iter cache request world).cache.lookup request.key ≠
      cache.lookup request.key := by
  obtain ⟨hlive, hnone⟩ := not_or.1 h
  unfold cacheAside loadThrough
  cases hentry : cache.lookup request.key with
  | none =>
      rw [Cache.get_of_none hentry]
      cases hload : request.load world with
      | mk result world' =>
          cases result with
          | error e => exact absurd ⟨hentry, e, by rw [hload]⟩ hnone
          | ok value =>
              simp only [Cache.lookup_setWithTtl]
              exact Option.some_ne_none _
  | some entry =>
      have hexpired : entry.isExpired request.lookedUpAt := by
        by_contra hnot
        exact hlive ⟨entry, hentry, Bool.eq_false_iff.2 hnot⟩
      rw [Cache.get_of_expired hentry hexpired]
      cases hload : request.load world with
      | mk result world' =>
          cases result with
          | error e =>
              simp only [Cache.lookup_remove]
              exact (Option.some_ne_none _).symm
          | ok value =>
              obtain ⟨t, ht, hlt⟩ := Cache.isExpired_iff.1 hexpired
              simp only [Cache.lookup_setWithTtl]
              intro heq
              have hexpires := congrArg CacheEntry.expires_at (Option.some.inj heq)
              simp only [CacheEntry.new, Option.map_some, ht, Option.some.injEq] at hexpires
              have hle : request.lookedUpAt ≤ t := by
                rw [← hexpires]
                exact Nat.le_trans request.lookedUp_le_stored (Nat.le_add_right _ _)
              exact absurd hlt (Nat.not_lt.2 hle)

/-- After a successful load the cache hits until the entry expires. -/
theorem get_after_load {request : Request W K V E} {value : V}
    (hresult : (cacheAside iter cache request world).result = .ok value)
    (hloads : (cacheAside iter cache request world).loads = 1) {now : Instant}
    (hnow : now ≤ request.storedAt + request.ttl) :
    ((cacheAside iter cache request world).cache.get request.key now).1 = some value := by
  unfold cacheAside loadThrough at hresult hloads ⊢
  cases hget : cache.get request.key request.lookedUpAt with
  | mk found cache' =>
      cases found with
      | some value' => simp [hget] at hloads
      | none =>
          cases hload : request.load world with
          | mk result world' =>
              cases result with
              | error e => simp [hget, hload] at hresult
              | ok value' =>
                  obtain rfl : value' = value := by simpa [hget, hload] using hresult
                  have hlookup := Cache.lookup_setWithTtl iter cache' request.key value'
                    (some request.ttl) request.storedAt
                  have hlive : (CacheEntry.new value' (some request.ttl)
                      request.storedAt).isExpired now = false := by
                    simpa [CacheEntry.isExpired, CacheEntry.new] using hnow
                  simp only [Cache.get_of_live hlookup hlive]
                  rfl

end Calls

theorem Agrees.refl (run : Run K V E) : Agrees run run := ⟨rfl, rfl, rfl⟩

section Refinement

variable {iter} {cache : Cache K V} {world : W} {request : Request W K V RszeroError}
  {requests : List (Request W K V RszeroError)}

/-- A call that leaves the cache alone is the same call with both functions. -/
theorem singleflight_of_leavesCache (h : LeavesCache cache request world) :
    cacheAsideSingleflight iter cache request world = cacheAside iter cache request world := by
  have hcache : (loadThrough iter cache request world).cache = cache := cache_of_leavesCache h
  unfold cacheAsideSingleflight cacheAside
  cases hdone : loadThrough iter cache request world with
  | mk result cache' world' loads =>
      rw [hdone] at hcache
      obtain rfl : cache' = cache := hcache
      simp only [hdone]

theorem agrees_cons_iff (h : LeavesCache cache request world) :
    Agrees (runAll (cacheAside iter) cache world (request :: requests))
        (runAll (cacheAsideSingleflight iter) cache world (request :: requests)) ↔
      Agrees (runAll (cacheAside iter) cache (cacheAside iter cache request world).world requests)
        (runAll (cacheAsideSingleflight iter) cache (cacheAside iter cache request world).world
          requests) := by
  simp only [runAll, singleflight_of_leavesCache h, cache_of_leavesCache h]
  constructor
  · rintro ⟨hresults, hloads, hcontents⟩
    exact ⟨List.tail_eq_of_cons_eq hresults, Nat.add_left_cancel hloads, hcontents⟩
  · rintro ⟨hresults, hloads, hcontents⟩
    exact ⟨by rw [hresults], by rw [hloads], hcontents⟩

theorem refines_cons_iff (h : LeavesCache cache request world) :
    Refines iter cache world (request :: requests) ↔
      Refines iter cache (cacheAside iter cache request world).world requests := by
  constructor
  · intro hrefines made hmade
    exact (agrees_cons_iff h).1 (hrefines (request :: made) (List.cons_prefix_cons.2 ⟨rfl, hmade⟩))
  · intro hrefines made hmade
    cases made with
    | nil => exact .refl _
    | cons request' made =>
        obtain ⟨rfl, hrest⟩ := List.cons_prefix_cons.1 hmade
        exact (agrees_cons_iff h).2 (hrefines made hrest)

/-- The first call that changes the cache of `cache_aside` already tells the functions apart. -/
theorem leavesCache_of_refines (h : Refines iter cache world (request :: requests)) :
    LeavesCache cache request world := by
  by_contra hnot
  have hone := h [request] (List.cons_prefix_cons.2 ⟨rfl, List.nil_prefix⟩)
  exact lookup_of_not_leavesCache hnot (congrFun hone.contents request.key)

end Refinement

/-- Call after call the two functions do the same exactly as long as no call of `cache_aside`
changes the cache. -/
theorem refines_iff_neverStores (cache : Cache K V) (world : W)
    (requests : List (Request W K V RszeroError)) :
    Refines iter cache world requests ↔ NeverStores iter cache world requests := by
  induction requests generalizing world with
  | nil =>
      refine iff_of_true ?_ trivial
      intro made hmade
      rw [List.prefix_nil.1 hmade]
      exact .refl _
  | cons request requests ih =>
      constructor
      · intro hrefines
        have hleaves := leavesCache_of_refines hrefines
        have hrest := (ih _).1 ((refines_cons_iff hleaves).1 hrefines)
        refine ⟨hleaves, ?_⟩
        rwa [cache_of_leavesCache hleaves]
      · rintro ⟨hleaves, hrest⟩
        rw [cache_of_leavesCache hleaves] at hrest
        exact (refines_cons_iff hleaves).2 ((ih _).2 hrest)

def inOrder : Iteration String ℕ := ⟨id, fun _ => .refl _⟩

def countingRequest (now : Instant) : Request ℕ String ℕ RszeroError :=
  ⟨"key", 60, fun world => (.ok 42, world + 1), now, now, Nat.le_refl now⟩

/-- On an empty cache the second call hits with `cache_aside` and loads again with
`cache_aside_singleflight`, which has left the cache empty. -/
theorem twoCalls_not_refines :
    (runAll (cacheAside inOrder) (.new 10) 0 [countingRequest 0, countingRequest 1]).loads = 1 ∧
      (runAll (cacheAsideSingleflight inOrder) (.new 10) 0
        [countingRequest 0, countingRequest 1]).loads = 2 ∧
      ¬ Refines inOrder (.new 10) 0 [countingRequest 0, countingRequest 1] := by
  refine ⟨by decide +kernel, by decide +kernel, fun hrefines => ?_⟩
  have hloads := (hrefines _ List.prefix_rfl).loads
  revert hloads
  decide +kernel

end Rszero.CacheAside
