import Rszero.ConcurrentPrograms
import Rszero.MemCacheRuns

/-!
# Concurrent cache-aside calls

`cache_aside` and `cache_aside_with_invalidate` as programs that share one `MemCache`. Loaders
return the value of a source, or an error; between any two steps of a call the other calls make
theirs, the clock moves, and entries are deleted, cleared and inserted by others.
-/

namespace Rszero.CacheAside.Concurrent

open MemCache CallProgram

/-- The calls of the two functions; the loader is a closure that knows its key. -/
inductive CacheCall (K V : Type)
  | get (key : K)
  | load (key : K)
  | onMiss (value : V)
  | setWithTtl (key : K) (value : V) (ttl : Duration)

abbrev CacheCall.Answer {K V : Type} (E : Type) : CacheCall K V → Type
  | .get _ => Option V
  | .load _ => Except E V
  | .onMiss _ => Unit
  | .setWithTtl .. => Unit

abbrev Program (K V E : Type) :=
  CallProgram (CacheCall.Answer (K := K) (V := V) E) (Except E V)

abbrev CallsMade (K V E : Type) := Calls (CacheCall.Answer (K := K) (V := V) E)

variable {K V E : Type}

def cacheAside (key : K) (ttl : Duration) : Program K V E :=
  .call (.get key) fun
    | some value => .done (.ok value)
    | none => .call (.load key) fun
        | .error e => .done (.error e)
        | .ok value => .call (.setWithTtl key value ttl) fun _ => .done (.ok value)

def cacheAsideWithInvalidate (key : K) (ttl : Duration) : Program K V E :=
  .call (.get key) fun
    | some value => .done (.ok value)
    | none => .call (.load key) fun
        | .error e => .done (.error e)
        | .ok value => .call (.onMiss value) fun _ =>
            .call (.setWithTtl key value ttl) fun _ => .done (.ok value)

inductive Function
  | cacheAside
  | cacheAsideWithInvalidate

structure Request (K : Type) where
  function : Function
  key : K
  ttl : Duration

def Request.body (request : Request K) : Program K V E :=
  match request.function with
  | .cacheAside => Concurrent.cacheAside request.key request.ttl
  | .cacheAsideWithInvalidate => Concurrent.cacheAsideWithInvalidate request.key request.ttl

/-- How long a call takes, the order of the map if it stores, and the error of its loader, if
any. -/
structure Choice (K V E : Type) where
  elapsed : Duration
  iter : Iteration K V
  failure : Option E

/-- What others do with the cache; what they insert is of the source too. -/
inductive Interference (K V : Type)
  | get (key : K)
  | delete (key : K)
  | clear
  | insert (iter : Iteration K V) (key : K) (ttl : Option Duration)

variable (source : K → V)

def Interference.operation : Interference K V → Operation K V
  | .get key => .get key
  | .delete key => .delete key
  | .clear => .clear
  | .insert iter key ttl => .setWithTtl iter key (source key) ttl

variable [DecidableEq K]

def perform (s : MemCache.State K V) (x : Choice K V E) :
    (op : CacheCall K V) → Option (op.Answer E × MemCache.State K V)
  | .get key => some ((s.cache.get key (s.now + x.elapsed)).1, s.next ⟨x.elapsed, .get key⟩)
  | .load key =>
      some (match x.failure with | some e => .error e | none => .ok (source key),
        { s with now := s.now + x.elapsed })
  | .onMiss _ => some ((), { s with now := s.now + x.elapsed })
  | .setWithTtl key value ttl =>
      some ((), s.next ⟨x.elapsed, .setWithTtl x.iter key value (some ttl)⟩)

def platform (E : Type) (cache : Cache K V) (now : Instant) :
    Platform (CacheCall.Answer (K := K) (V := V) E) (Request K) (Except E V) (MemCache.State K V)
      (Choice K V E) (Duration × Interference K V) where
  shared := ⟨now, cache⟩
  body := Request.body
  perform := perform source
  env s e := some (s.next ⟨e.1, e.2.operation source⟩)

abbrev Task (K V E : Type) :=
  Platform.Task (CacheCall.Answer (K := K) (V := V) E) (Request K) (Except E V)

abbrev State (K V E : Type) :=
  Platform.State (CacheCall.Answer (K := K) (V := V) E) (Request K) (Except E V)
    (MemCache.State K V)

abbrev Label (K V E : Type) :=
  Platform.Label (Request K) (Choice K V E) (Duration × Interference K V)

def system (E : Type) (cache : Cache K V) (now : Instant) :
    TransitionSystem (State K V E) (Label K V E) := (platform source E cache now).system

def Called (task : Task K V E) (op : CacheCall K V) : Prop :=
  (∃ ans, ⟨op, ans⟩ ∈ task.past) ∨ ∃ next, task.rest = .call op next

def Sourced (cache : Cache K V) : Prop := ∀ e ∈ cache.entries, e.2.value = source e.1

structure Transparent (task : Task K V E) : Prop where
  ok : ∀ value, task.rest = .done (.ok value) → value = source task.request.key
  loads : Called task (.load task.request.key) ↔ ⟨.get task.request.key, none⟩ ∈ task.past
  notifies : ∀ value, Called task (.onMiss value) ↔
    task.request.function = .cacheAsideWithInvalidate ∧
      ⟨.load task.request.key, .ok value⟩ ∈ task.past
  fails : ∀ e, ⟨.load task.request.key, .error e⟩ ∈ task.past → task.rest = .done (.error e)
  once : (task.past.map Sigma.fst).Nodup

/-- What a call has done, and what it has left to do. -/
inductive Point (request : Request K) : CallsMade K V E → Program K V E → Prop
  | begun {next : Option V → Program K V E} :
      Point request [] (.call (.get request.key) next)
  | hit (value : V) : Point request [⟨.get request.key, some value⟩] (.done (.ok value))
  | missed {next : Except E V → Program K V E} :
      Point request [⟨.get request.key, none⟩] (.call (.load request.key) next)
  | failed (e : E) :
      Point request [⟨.get request.key, none⟩, ⟨.load request.key, .error e⟩] (.done (.error e))
  | loaded (value : V) {next : Unit → Program K V E} (h : request.function = .cacheAside) :
      Point request [⟨.get request.key, none⟩, ⟨.load request.key, .ok value⟩]
        (.call (.setWithTtl request.key value request.ttl) next)
  | stored (value : V) (h : request.function = .cacheAside) :
      Point request [⟨.get request.key, none⟩, ⟨.load request.key, .ok value⟩,
        ⟨.setWithTtl request.key value request.ttl, ()⟩] (.done (.ok value))
  | notifying (value : V) {next : Unit → Program K V E}
      (h : request.function = .cacheAsideWithInvalidate) :
      Point request [⟨.get request.key, none⟩, ⟨.load request.key, .ok value⟩]
        (.call (.onMiss value) next)
  | notified (value : V) {next : Unit → Program K V E}
      (h : request.function = .cacheAsideWithInvalidate) :
      Point request [⟨.get request.key, none⟩, ⟨.load request.key, .ok value⟩, ⟨.onMiss value, ()⟩]
        (.call (.setWithTtl request.key value request.ttl) next)
  | storedAfter (value : V) (h : request.function = .cacheAsideWithInvalidate) :
      Point request [⟨.get request.key, none⟩, ⟨.load request.key, .ok value⟩, ⟨.onMiss value, ()⟩,
        ⟨.setWithTtl request.key value request.ttl, ()⟩] (.done (.ok value))

variable {request : Request K} {past : CallsMade K V E} {rest : Program K V E}

omit [DecidableEq K] in
/-- Both functions look first, and then load what they miss. -/
theorem point_of_reaches_load {next : Option V → Program K V E}
    {onLoad : Except E V → Program K V E}
    (h : CallProgram.Reaches (.call (.get request.key) next) past rest)
    (hhit : ∀ value, next (some value) = .done (.ok value))
    (hmiss : next none = .call (.load request.key) onLoad)
    (hfail : ∀ e, onLoad (.error e) = .done (.error e)) :
    Point request past rest ∨ ∃ value past',
      past = ⟨.get request.key, none⟩ :: ⟨.load request.key, .ok value⟩ :: past' ∧
        (onLoad (.ok value)).Reaches past' rest := by
  rcases reaches_call_iff.1 h with ⟨rfl, rfl⟩ | ⟨got, past, rfl, hgot⟩
  · exact .inl .begun
  · cases got with
    | some value =>
        rw [hhit] at hgot
        obtain ⟨rfl, rfl⟩ := reaches_done_iff.1 hgot
        exact .inl (.hit value)
    | none =>
        rw [hmiss] at hgot
        rcases reaches_call_iff.1 hgot with ⟨rfl, rfl⟩ | ⟨loaded, past, rfl, hloaded⟩
        · exact .inl .missed
        · cases loaded with
          | error e =>
              rw [hfail] at hloaded
              obtain ⟨rfl, rfl⟩ := reaches_done_iff.1 hloaded
              exact .inl (.failed e)
          | ok value => exact .inr ⟨value, past, rfl, hloaded⟩

omit [DecidableEq K] in
theorem point_of_reaches_cacheAside (hf : request.function = .cacheAside)
    (h : (Concurrent.cacheAside request.key request.ttl).Reaches past rest) :
    Point request past rest := by
  rcases point_of_reaches_load h (fun _ => rfl) rfl (fun _ => rfl) with
    hpoint | ⟨value, past, rfl, hloaded⟩
  · exact hpoint
  · rcases reaches_call_iff.1 hloaded with ⟨rfl, rfl⟩ | ⟨-, past, rfl, hthen⟩
    · exact .loaded value hf
    · obtain ⟨rfl, rfl⟩ := reaches_done_iff.1 hthen
      exact .stored value hf

omit [DecidableEq K] in
theorem point_of_reaches_withInvalidate (hf : request.function = .cacheAsideWithInvalidate)
    (h : (Concurrent.cacheAsideWithInvalidate request.key request.ttl).Reaches past rest) :
    Point request past rest := by
  rcases point_of_reaches_load h (fun _ => rfl) rfl (fun _ => rfl) with
    hpoint | ⟨value, past, rfl, hloaded⟩
  · exact hpoint
  · rcases reaches_call_iff.1 hloaded with ⟨rfl, rfl⟩ | ⟨-, past, rfl, hthen⟩
    · exact .notifying value hf
    · rcases reaches_call_iff.1 hthen with ⟨rfl, rfl⟩ | ⟨-, past, rfl, hlast⟩
      · exact .notified value hf
      · obtain ⟨rfl, rfl⟩ := reaches_done_iff.1 hlast
        exact .storedAfter value hf

omit [DecidableEq K] in
theorem point_of_reaches (h : request.body.Reaches past rest) : Point request past rest := by
  unfold Request.body at h
  cases hf : request.function with
  | cacheAside =>
      rw [hf] at h
      exact point_of_reaches_cacheAside hf h
  | cacheAsideWithInvalidate =>
      rw [hf] at h
      exact point_of_reaches_withInvalidate hf h

section Entries

variable {cache : Cache K V} {key : K} {value : V} {iter : Iteration K V}

theorem entries_remove_subset : (cache.remove key).entries ⊆ cache.entries :=
  List.filter_sublist.subset

theorem entries_get_subset (now : Instant) : (cache.get key now).2.entries ⊆ cache.entries := by
  unfold Cache.get
  split_ifs
  · exact entries_remove_subset
  · exact List.Subset.refl _

theorem entries_evict_subset (now : Instant) :
    (Cache.evict iter cache now).entries ⊆ cache.entries := by
  unfold Cache.evict
  cases Cache.evictee iter cache now with
  | some key => exact entries_remove_subset
  | none => exact List.Subset.refl _

variable {source}

omit [DecidableEq K] in
theorem Sourced.of_subset {cache' : Cache K V} (h : Sourced source cache)
    (hsub : cache'.entries ⊆ cache.entries) : Sourced source cache' :=
  fun e he => h e (hsub he)

theorem Sourced.insert (h : Sourced source cache) {entry : CacheEntry V}
    (hentry : entry.value = source key) : Sourced source (cache.insert key entry) := by
  intro e he
  rcases List.mem_cons.1 he with rfl | hmem
  · exact hentry
  · exact h e (entries_remove_subset hmem)

theorem Sourced.setWithTtl (h : Sourced source cache) (ttl : Option Duration) (now : Instant) :
    Sourced source (cache.setWithTtl iter key (source key) ttl now) := by
  unfold Cache.setWithTtl
  refine Sourced.insert ?_ rfl
  split_ifs
  · exact h.of_subset (entries_evict_subset now)
  · exact h

theorem Sourced.interfere (h : Sourced source cache) (now : Instant) (e : Interference K V) :
    Sourced source ((e.operation source).perform cache now).2 := by
  cases e with
  | get key => exact h.of_subset (entries_get_subset now)
  | delete key => exact h.of_subset entries_remove_subset
  | clear => exact h.of_subset (List.nil_subset _)
  | insert iter key ttl => exact h.setWithTtl ttl now

end Entries

/-- A call whose key is missing loads the value of the source, or an error. -/
def Answered : Sigma (CacheCall.Answer (K := K) (V := V) E) → Prop
  | ⟨.get key, some value⟩ => value = source key
  | ⟨.load key, .ok value⟩ => value = source key
  | _ => True

variable {source} {cache : Cache K V} {now : Instant}

theorem Sourced.get_eq (h : Sourced source cache) {key : K} {value : V}
    (hget : (cache.get key now).1 = some value) : value = source key := by
  unfold Cache.get at hget
  split_ifs at hget
  obtain ⟨entry, hlookup, rfl⟩ := Option.map_eq_some_iff.1 hget
  obtain ⟨before, after, hentries, -⟩ := List.lookup_eq_some_iff.1 hlookup
  exact h (key, entry) (by simp [hentries])

omit [DecidableEq K] in
/-- What a call stores is what its loader returned. -/
theorem Point.eq_source {key : K} {value : V} {ttl : Duration} {next : Unit → Program K V E}
    (h : Point request past (.call (.setWithTtl key value ttl) next))
    (hpast : ∀ e ∈ past, Answered source e) : value = source key := by
  cases h with
  | loaded value hf => exact hpast ⟨.load request.key, .ok value⟩ (by simp)
  | notified value hf => exact hpast ⟨.load request.key, .ok value⟩ (by simp)

theorem platform_preserves :
    (platform source E cache now).Preserves (fun s => Sourced source s.cache)
      (fun _ => Answered source) where
  perform := by
    intro request past op rest x s ans s' hs hreaches hpast hperform
    have hpoint := point_of_reaches hreaches
    cases op with
    | get key =>
        cases hperform
        refine ⟨hs.of_subset (entries_get_subset _), ?_⟩
        cases hget : (s.cache.get key (s.now + x.elapsed)).1 with
        | some value => exact hs.get_eq hget
        | none => trivial
    | load key =>
        cases hperform
        cases hfailure : x.failure with
        | some e => exact ⟨hs, trivial⟩
        | none => exact ⟨hs, rfl⟩
    | onMiss value =>
        cases hperform
        exact ⟨hs, trivial⟩
    | setWithTtl key value ttl =>
        cases hperform
        obtain rfl := hpoint.eq_source hpast
        exact ⟨hs.setWithTtl _ _, trivial⟩
  env := by
    intro s e s' hs he
    cases he
    exact hs.interfere _ _

omit [DecidableEq K] in
theorem Point.transparent (h : Point request past rest) (hpast : ∀ e ∈ past, Answered source e)
    (live : Bool) : Transparent source ⟨request, past, rest, live⟩ := by
  cases h with
  | begun => exact ⟨by simp, by simp [Called], by simp [Called], by simp, by simp⟩
  | hit value =>
      have hsource : value = source request.key := hpast ⟨.get request.key, some value⟩ (by simp)
      exact ⟨by simp [hsource], by simp [Called], by simp [Called], by simp, by simp⟩
  | missed => exact ⟨by simp, by simp [Called], by simp [Called], by simp, by simp⟩
  | failed e => exact ⟨by simp, by simp [Called], by simp [Called], by simp, by simp⟩
  | loaded value hf => exact ⟨by simp, by simp [Called], by simp [Called, hf], by simp, by simp⟩
  | stored value hf =>
      have hsource : value = source request.key := hpast ⟨.load request.key, .ok value⟩ (by simp)
      exact ⟨by simp [hsource], by simp [Called], by simp [Called, hf], by simp, by simp⟩
  | notifying value hf =>
      exact ⟨by simp, by simp [Called], by simp [Called, hf, eq_comm], by simp, by simp⟩
  | notified value hf => exact ⟨by simp, by simp [Called], by simp [Called, hf], by simp, by simp⟩
  | storedAfter value hf =>
      have hsource : value = source request.key := hpast ⟨.load request.key, .ok value⟩ (by simp)
      exact ⟨by simp [hsource], by simp [Called], by simp [Called, hf], by simp, by simp⟩

omit [DecidableEq K] in
/-- A call whose loader has failed has looked up and loaded, and that is all. -/
theorem Point.of_failed {e : E} (h : Point request past rest)
    (hfailed : ⟨.load request.key, .error e⟩ ∈ past) :
    past = [⟨.get request.key, none⟩, ⟨.load request.key, .error e⟩] := by
  cases h <;> simp_all

theorem perform_subset {s s' : MemCache.State K V} {x : Choice K V E} {op : CacheCall K V}
    {ans : op.Answer E} (hperform : perform source s x op = some (ans, s'))
    (hop : ∀ key value ttl, op ≠ .setWithTtl key value ttl) :
    s'.cache.entries ⊆ s.cache.entries := by
  cases op with
  | get key =>
      cases hperform
      exact entries_get_subset _
  | load key =>
      cases hperform
      exact List.Subset.refl _
  | onMiss value =>
      cases hperform
      exact List.Subset.refl _
  | setWithTtl key value ttl => exact absurd rfl (hop key value ttl)

def AddsNothing (S : TransitionSystem (State K V E) (Label K V E)) (run : List (Label K V E))
    (i : ℕ) : Prop :=
  ∀ before x after t t', run = before ++ .call i x :: after → S.exec S.init before = some t →
    S.step t (.call i x) = some t' → t'.shared.cache.entries ⊆ t.shared.cache.entries

/-- In every run the cache has values of the source only, every call is transparent, and a call
whose loader fails leaves the cache as it is, but for expired entries. -/
theorem cache_aside_transparent (hcache : Sourced source cache) {run : List (Label K V E)}
    {s : State K V E}
    (he : (system source E cache now).exec (system source E cache now).init run = some s) :
    Sourced source s.shared.cache ∧
      ∀ i task, s.tasks i = some task → Transparent source task ∧
        ∀ e, ⟨.load task.request.key, .error e⟩ ∈ task.past →
          AddsNothing (system source E cache now) run i := by
  have hpreserves : (platform source E cache now).Preserves (fun s => Sourced source s.cache)
    (fun _ => Answered source) := platform_preserves
  have hkeeps := Platform.Keeps.exec hpreserves hcache he
  refine ⟨hkeeps.shared, ?_⟩
  intro i task htask
  have hpoint := point_of_reaches (hkeeps.reaches i task htask)
  refine ⟨hpoint.transparent (hkeeps.relied i task htask) task.live, ?_⟩
  intro e hfailed before x after t t' hrun hbefore hstep
  have hpast := hpoint.of_failed hfailed
  -- The call made by the step is one of the two that the call has made in the end.
  rw [hrun] at he
  obtain ⟨u, hu, hrest⟩ := (TransitionSystem.exec_append_eq_some _).1 he
  obtain rfl := Option.some.inj (hbefore.symm.trans hu)
  obtain ⟨u', hu', hafter⟩ := (TransitionSystem.exec_cons_eq_some _).1 hrest
  obtain rfl := Option.some.inj (hstep.symm.trans hu')
  cases Platform.next_move hstep with
  | @call _ _ task' op rest ans shared ht hlive hrest' hperform =>
      obtain ⟨task'', htask'', -, hextends⟩ :=
        Platform.extends_exec (Platform.put_tasks_self ..) hafter
      obtain rfl := Option.some.inj (htask.symm.trans htask'')
      have hmem : ⟨op, ans⟩ ∈ task.past := hextends.subset (List.mem_append_right _ (by simp))
      refine perform_subset hperform ?_
      rintro key value ttl rfl
      simp [hpast] at hmem

def plainly (failure : Option String) : Choice ℕ ℕ String := ⟨1, ⟨id, .refl⟩, failure⟩

def outage : List (Label ℕ ℕ String) :=
  [.spawn 0 ⟨.cacheAside, 3, 10⟩, .call 0 (plainly none), .call 0 (plainly (some "down")),
    .spawn 1 ⟨.cacheAsideWithInvalidate, 3, 10⟩, .call 1 (plainly none), .env (1, .delete 3),
    .call 1 (plainly none), .call 1 (plainly none), .call 1 (plainly none)]

theorem cache_aside_transparent_outage :
    ∃ s, (system (· + 1) String (.new 1) 0).exec (system (· + 1) String (.new 1) 0).init outage =
      some s ∧ Sourced (· + 1) s.shared.cache ∧ s.shared.cache.entries.length = 1 := by
  have hnew : Sourced (· + 1) (Cache.new 1 : Cache ℕ ℕ) := fun e he => absurd he List.not_mem_nil
  have hrun : (((system (· + 1) String (.new 1) 0).exec
      (system (· + 1) String (.new 1) 0).init outage).any
        fun s => s.shared.cache.entries.length == 1) = true := rfl
  obtain ⟨s, he, hlen⟩ := TransitionSystem.exists_exec _ hrun
  exact ⟨s, he, (cache_aside_transparent hnew he).1, eq_of_beq hlen⟩

end Rszero.CacheAside.Concurrent
