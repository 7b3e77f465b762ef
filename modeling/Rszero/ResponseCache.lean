import Mathlib.Logic.Function.Basic
import Rszero.Base64
import Rszero.Http
import Rszero.TransitionSystem

/-!
# The response cache

`CacheMiddleware::handle` keeps status and body of a response under method and URI of its request,
and answers from there. A body is a stream that may fail; one that fails is taken for an empty one.
Redis is a map with expiry, in milliseconds, that may fail on every access.

An exchange is a request with the response that its handler would give, and what Redis does. The
history variable has the answers, the exchanges in which the handler ran, the last one stored under
each key, those whose response was stored, and the answers from the cache.
-/

namespace Rszero.ResponseCache

open Http

abbrev Bytes := List UInt8

/-- A body yields its chunks and ends, or fails. -/
structure Body where
  chunks : List Bytes
  complete : Bool
  deriving DecidableEq

namespace Body

def ofBytes (bytes : Bytes) : Body := ⟨[bytes], true⟩

def bytes (body : Body) : Bytes := body.chunks.flatten

/-- What a reader gets: the bytes, and whether they are all. -/
def read (body : Body) : Bytes × Bool := (body.bytes, body.complete)

def toBytes (body : Body) : Option Bytes := if body.complete then some body.bytes else none

@[simp] theorem read_ofBytes (bytes : Bytes) : (ofBytes bytes).read = (bytes, true) := by
  simp [ofBytes, read, Body.bytes]

theorem toBytes_of_complete {body : Body} (h : body.complete) : body.toBytes = some body.bytes :=
  if_pos h

end Body

structure CacheConfig where
  ttl : UInt64
  cache_status : List UInt16
  cache_get_only : Bool

def CacheConfig.default : CacheConfig where
  ttl := 60
  cache_status := [200]
  cache_get_only := true

structure CachedEntry where
  status : UInt16
  body_b64 : String

namespace CachedEntry

def new (status : UInt16) (body : Bytes) : CachedEntry := ⟨status, Base64.encode body⟩

def body (entry : CachedEntry) : Bytes := (Base64.decode entry.body_b64).getD []

def toJson (entry : CachedEntry) : Json :=
  .obj [("status", .num entry.status.toNat), ("body_b64", .str entry.body_b64)]

def ofJson (v : Json) : Option CachedEntry :=
  match v.structFields ["status", "body_b64"] with
  | some [some status, some body_b64] =>
      status.asU16.bind (fun status => body_b64.asStr.map (fun body_b64 => ⟨status, body_b64⟩))
  | _ => none

@[simp] theorem body_new (status : UInt16) (bytes : Bytes) : (new status bytes).body = bytes := by
  simp [new, body]

@[simp] theorem ofJson_toJson (entry : CachedEntry) : ofJson entry.toJson = some entry := by
  simp [ofJson, toJson, Json.structFields, List.lookup_cons]

end CachedEntry

def cacheKey (req : Request Bytes) : String :=
  s!"rszero:cache:{req.method.name}:{req.uri.toString}"

variable {Text : Type}

abbrev Redis (Text : Type) := String → Option (Text × ℕ)

/-- An error, here `none`, is only logged. -/
def Redis.getEntry (redis : Redis Text) (json : SerdeJson Text) (now : ℕ) (key : String)
    (fails : Bool) : Option (Option CachedEntry) :=
  if fails then none
  else
    match (redis key).filter (fun e => now < e.2) with
    | none => some none
    | some (text, _) => ((json.fromText text).bind CachedEntry.ofJson).map some

def Redis.setEx (redis : Redis Text) (json : SerdeJson Text) (now : ℕ) (key : String)
    (entry : CachedEntry) (ttl : UInt64) (fails : Bool) : Redis Text :=
  if fails ∨ ttl.toInt64 ≤ 0 then redis
  else Function.update redis key (some (json.toText entry.toJson, now + 1000 * ttl.toNat))

def isCacheableRequest (config : CacheConfig) (req : Request Bytes) : Bool :=
  !(config.cache_get_only && req.method != .get)

def isCacheableResponse (config : CacheConfig) (res : Response Body) : Bool :=
  config.cache_status.contains res.status.asU16

def hitResponse (entry : CachedEntry) : Response Body where
  status := (StatusCode.fromU16 entry.status).getD .ok
  headers := [("x-cache", .ofText "HIT" (by decide))]
  body := .ofBytes entry.body

structure Exchange where
  elapsed : ℕ
  request : Request Bytes
  response : Response Body
  readFails : Bool
  writeFails : Bool

def handle (config : CacheConfig) (json : SerdeJson Text) (redis : Redis Text) (now : ℕ)
    (a : Exchange) : Response Body × Redis Text :=
  if !isCacheableRequest config a.request then (a.response, redis)
  else
    match redis.getEntry json now (cacheKey a.request) a.readFails with
    | some (some entry) => (hitResponse entry, redis)
    | _ =>
        if isCacheableResponse config a.response then
          let bytes := a.response.body.toBytes.getD []
          let entry := CachedEntry.new a.response.status.asU16 bytes
          ({ a.response with body := .ofBytes bytes },
            redis.setEx json now (cacheKey a.request) entry config.ttl a.writeFails)
        else (a.response, redis)

structure State (Text : Type) where
  now : ℕ
  redis : Redis Text

def State.next (config : CacheConfig) (json : SerdeJson Text) (s : State Text) (a : Exchange) :
    State Text :=
  ⟨s.now + a.elapsed, (handle config json s.redis (s.now + a.elapsed) a).2⟩

def State.answer (config : CacheConfig) (json : SerdeJson Text) (s : State Text) (a : Exchange) :
    Response Body :=
  (handle config json s.redis (s.now + a.elapsed) a).1

def system (config : CacheConfig) (json : SerdeJson Text) :
    TransitionSystem (State Text) Exchange where
  init := ⟨0, fun _ => none⟩
  step s a := some (s.next config json a)

def State.found (config : CacheConfig) (json : SerdeJson Text) (s : State Text) (a : Exchange) :
    Option CachedEntry :=
  if isCacheableRequest config a.request then
    (s.redis.getEntry json (s.now + a.elapsed) (cacheKey a.request) a.readFails).join
  else none

def State.Fetches (config : CacheConfig) (json : SerdeJson Text) (s : State Text) (a : Exchange) :
    Prop :=
  isCacheableRequest config a.request ∧ s.found config json a = none ∧
    isCacheableResponse config a.response

instance (config : CacheConfig) (json : SerdeJson Text) (s : State Text) (a : Exchange) :
    Decidable (s.Fetches config json a) :=
  inferInstanceAs (Decidable (_ ∧ _ ∧ _))

def State.Stores (config : CacheConfig) (json : SerdeJson Text) (s : State Text) (a : Exchange) :
    Prop :=
  s.Fetches config json a ∧ ¬ (a.writeFails ∨ config.ttl.toInt64 ≤ 0)

instance (config : CacheConfig) (json : SerdeJson Text) (s : State Text) (a : Exchange) :
    Decidable (s.Stores config json a) :=
  inferInstanceAs (Decidable (_ ∧ ¬ (_ ∨ _)))

def Exchange.bytes (a : Exchange) : Bytes := a.response.body.toBytes.getD []

def Exchange.entry (a : Exchange) : CachedEntry := .new a.response.status.asU16 a.bytes

section Steps

variable {config : CacheConfig} {json : SerdeJson Text} {s : State Text} {a : Exchange}

theorem handle_of_found {entry : CachedEntry} (h : s.found config json a = some entry) :
    s.answer config json a = hitResponse entry ∧ (s.next config json a).redis = s.redis := by
  unfold State.found at h
  split_ifs at h with hrequest
  have hread := Option.join_eq_some_iff.1 h
  simp [State.answer, State.next, handle, hrequest, hread]

theorem handle_of_fetches (h : s.Fetches config json a) :
    s.answer config json a = { a.response with body := .ofBytes a.bytes } ∧
      (s.next config json a).redis = s.redis.setEx json (s.now + a.elapsed) (cacheKey a.request)
        a.entry config.ttl a.writeFails := by
  obtain ⟨hrequest, hfound, hresponse⟩ := h
  have hread : ∀ entry, s.redis.getEntry json (s.now + a.elapsed) (cacheKey a.request)
      a.readFails ≠ some (some entry) := by
    intro entry hentry
    simp [State.found, hrequest, hentry] at hfound
  simp only [State.answer, State.next, handle, hrequest, hresponse, Bool.not_true,
    Bool.false_eq_true, if_false, if_true]
  exact ⟨rfl, rfl⟩

theorem handle_of_not_fetches (hfound : s.found config json a = none)
    (h : ¬ s.Fetches config json a) :
    s.answer config json a = a.response ∧ (s.next config json a).redis = s.redis := by
  by_cases hrequest : isCacheableRequest config a.request
  · have hresponse : ¬ isCacheableResponse config a.response := fun hres =>
      h ⟨hrequest, hfound, hres⟩
    simp only [State.found, hrequest, if_true] at hfound
    simp only [State.answer, State.next, handle, hrequest, hresponse, Bool.not_true,
      Bool.false_eq_true, if_false]
    split
    · rename_i entry hentry
      simp [hentry] at hfound
    · exact ⟨rfl, rfl⟩
  · simp [State.answer, State.next, handle, hrequest]

/-- What is read was written. -/
theorem found_eq_some {entry : CachedEntry} (h : s.found config json a = some entry) :
    ∃ text expires, s.redis (cacheKey a.request) = some (text, expires) ∧
      (json.fromText text).bind CachedEntry.ofJson = some entry := by
  unfold State.found at h
  split_ifs at h
  have hread := Option.join_eq_some_iff.1 h
  unfold Redis.getEntry at hread
  split_ifs at hread
  split at hread
  · cases hread
  · rename_i text expires hfilter
    obtain ⟨hkey, -⟩ := Option.filter_eq_some_iff.1 hfilter
    obtain ⟨entry', hentry, hsome⟩ := Option.map_eq_some_iff.1 hread
    obtain rfl := Option.some.inj hsome
    exact ⟨text, expires, hkey, hentry⟩

/-- The cache changes only where a response is stored. -/
theorem redis_next (s : State Text) (a : Exchange) : (s.next config json a).redis =
    if s.Stores config json a then
      Function.update s.redis (cacheKey a.request)
        (some (json.toText a.entry.toJson, s.now + a.elapsed + 1000 * config.ttl.toNat))
    else s.redis := by
  cases hfound : s.found config json a with
  | some entry =>
      have hnot : ¬ s.Stores config json a := by simp [State.Stores, State.Fetches, hfound]
      rw [if_neg hnot]
      exact (handle_of_found hfound).2
  | none =>
      by_cases hfetches : s.Fetches config json a
      · rw [(handle_of_fetches hfetches).2, Redis.setEx]
        by_cases hfails : a.writeFails ∨ config.ttl.toInt64 ≤ 0
        · rw [if_pos hfails, if_neg (fun h => h.2 hfails)]
        · rw [if_neg hfails, if_pos ⟨hfetches, hfails⟩]
      · rw [if_neg (fun h => hfetches h.1)]
        exact (handle_of_not_fetches hfound hfetches).2

end Steps

structure History where
  answers : List (Exchange × Response Body)
  produced : List Exchange
  stored : String → Option Exchange
  writes : List Exchange
  hits : List (String × Response Body)

def History.next (config : CacheConfig) (json : SerdeJson Text) (h : History) (s : State Text)
    (a : Exchange) : History where
  answers := (a, s.answer config json a) :: h.answers
  produced := if s.found config json a = none then a :: h.produced else h.produced
  stored :=
    if s.Stores config json a then Function.update h.stored (cacheKey a.request) (some a)
    else h.stored
  writes := if s.Stores config json a then a :: h.writes else h.writes
  hits :=
    if s.found config json a = none then h.hits
    else (cacheKey a.request, s.answer config json a) :: h.hits

def withHistory (config : CacheConfig) (json : SerdeJson Text) :
    TransitionSystem (State Text × History) Exchange :=
  (system config json).observe ⟨[], [], fun _ => none, [], []⟩
    (fun h s a _ => h.next config json s a)

/-- An entry is that of a response whose body was complete. -/
def Kept (json : SerdeJson Text) (x : State Text × History) : Prop :=
  ∀ key text expires, x.1.redis key = some (text, expires) →
    ∃ e, x.2.stored key = some e ∧ e ∈ x.2.produced ∧ cacheKey e.request = key ∧
      text = json.toText e.entry.toJson ∧ e.response.body.complete

section Kept

variable {config : CacheConfig} {json : SerdeJson Text} {x : State Text × History} {a : Exchange}

theorem Kept.initial : Kept json (withHistory config json).init := by
  intro key text expires h
  cases h

/-- What answers a request is the entry of a response whose body was complete. -/
theorem Kept.found (h : Kept json x) {entry : CachedEntry}
    (hfound : x.1.found config json a = some entry) :
    ∃ e, x.2.stored (cacheKey a.request) = some e ∧ e ∈ x.2.produced ∧
      cacheKey e.request = cacheKey a.request ∧ entry = e.entry ∧ e.response.body.complete := by
  obtain ⟨text, expires, hkey, hentry⟩ := found_eq_some hfound
  obtain ⟨e, hstored, hproduced, hekey, rfl, hcomplete⟩ := h _ _ _ hkey
  refine ⟨e, hstored, hproduced, hekey, ?_, hcomplete⟩
  rw [json.fromText_toText, Option.bind_some, CachedEntry.ofJson_toJson] at hentry
  exact (Option.some.inj hentry).symm

theorem Kept.next (h : Kept json x)
    (hcomplete : x.1.Stores config json a → a.response.body.complete) :
    Kept json (x.1.next config json a, x.2.next config json x.1 a) := by
  intro key text expires hkey
  have hmono {e : Exchange} (he : e ∈ x.2.produced) :
      e ∈ (x.2.next config json x.1 a).produced := by
    simp only [History.next]
    split_ifs
    · exact List.mem_cons_of_mem _ he
    · exact he
  rw [redis_next] at hkey
  by_cases hstores : x.1.Stores config json a
  · have hproduced : a ∈ (x.2.next config json x.1 a).produced := by
      simp [History.next, hstores.1.2.1]
    by_cases hsame : key = cacheKey a.request
    · subst hsame
      rw [if_pos hstores, Function.update_self] at hkey
      obtain ⟨rfl, rfl⟩ := Prod.mk.inj (Option.some.inj hkey)
      exact ⟨a, by simp [History.next, hstores], hproduced, rfl, rfl, hcomplete hstores⟩
    · rw [if_pos hstores, Function.update_of_ne hsame] at hkey
      obtain ⟨e, hstored, he, hrest⟩ := h key text expires hkey
      refine ⟨e, ?_, hmono he, hrest⟩
      simp [History.next, hstores, Function.update_of_ne hsame, hstored]
  · rw [if_neg hstores] at hkey
    obtain ⟨e, hstored, he, hrest⟩ := h key text expires hkey
    refine ⟨e, ?_, hmono he, hrest⟩
    simp [History.next, hstores, hstored]

end Kept

end Rszero.ResponseCache
