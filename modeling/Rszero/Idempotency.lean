import Mathlib.Logic.Function.Basic
import Mathlib.Order.Lattice
import Rszero.Http
import Rszero.TransitionSystem

/-!
# Requests with an idempotency key

`idempotency_middleware` looks the key up, runs the handler and stores the status of its response,
in steps between which other requests are served. A replay has the stored status and a body of its
own. A client that goes away drops its request, and nothing is stored then.
-/

namespace Rszero.Idempotency

open Http

abbrev Instant := ℕ

abbrev Duration := ℕ

abbrev CallId := ℕ

structure MemoryIdempotencyStore where
  inner : String → Option (UInt16 × Instant)
  ttl : Duration

namespace MemoryIdempotencyStore

def new (ttl : Duration) : MemoryIdempotencyStore := ⟨fun _ => none, ttl⟩

def cleanup (store : MemoryIdempotencyStore) (now : Instant) : MemoryIdempotencyStore :=
  { store with inner := fun key => (store.inner key).filter (fun e => now - e.2 < store.ttl) }

def get (store : MemoryIdempotencyStore) (key : String) (now : Instant) :
    Option UInt16 × MemoryIdempotencyStore :=
  (((store.cleanup now).inner key).map Prod.fst, store.cleanup now)

def insert (store : MemoryIdempotencyStore) (key : String) (status : UInt16) (now : Instant) :
    MemoryIdempotencyStore :=
  { store with inner := Function.update store.inner key (some (status, now)) }

end MemoryIdempotencyStore

structure IdempotencyConfig where
  header : String

def IdempotencyConfig.default : IdempotencyConfig := ⟨"Idempotency-Key"⟩

variable {Body : Type}

/-- What the client sends as its key. -/
def carried (config : IdempotencyConfig) (req : Request Body) : Option HeaderValue :=
  req.headers.get config.header

def replayBody : Json := .obj [("cached", .bool true), ("code", .num 0), ("msg", .str "ok")]

def replay (json : SerdeJson Body) (status : UInt16) : Response Body :=
  .json json ((StatusCode.fromU16 status).getD .ok) replayBody

/-- Where a request is: its handler runs, or it was answered by its handler or from the store, or
the client has gone away. -/
inductive Outcome (Body : Type)
  | running
  | returned (res : Response Body) (finished : Instant)
  | replayed (res : Response Body)
  | dropped

def Outcome.Ran : Outcome Body → Prop
  | .replayed _ => False
  | _ => True

structure Call (Body : Type) where
  key : Option HeaderValue
  outcome : Outcome Body

structure State (Body : Type) where
  now : Instant
  store : MemoryIdempotencyStore
  calls : CallId → Option (Call Body)

inductive Label (Body : Type)
  | arrive (i : CallId) (req : Request Body)
  | respond (i : CallId) (res : Response Body)
  | drop (i : CallId)
  | tick (d : Duration)

namespace State

def put (s : State Body) (i : CallId) (call : Call Body) : State Body :=
  { s with calls := Function.update s.calls i (some call) }

def accept (json : SerdeJson Body) (s : State Body) (i : CallId) (key : Option HeaderValue) :
    State Body :=
  match key.bind HeaderValue.toStr with
  | none => s.put i ⟨key, .running⟩
  | some text =>
      match s.store.get text s.now with
      | (some status, store) => { s with store }.put i ⟨key, .replayed (replay json status)⟩
      | (none, store) => { s with store }.put i ⟨key, .running⟩

def finish (s : State Body) (i : CallId) (key : Option HeaderValue) (res : Response Body) :
    State Body :=
  match key.bind HeaderValue.toStr with
  | none => s.put i ⟨key, .returned res s.now⟩
  | some text =>
      { s with store := s.store.insert text res.status.asU16 s.now }.put i
        ⟨key, .returned res s.now⟩

end State

def step (config : IdempotencyConfig) (json : SerdeJson Body) (s : State Body) :
    Label Body → Option (State Body)
  | .arrive i req =>
      match s.calls i with
      | none => some (s.accept json i (carried config req))
      | some _ => none
  | .respond i res =>
      match s.calls i with
      | some ⟨key, .running⟩ => some (s.finish i key res)
      | _ => none
  | .drop i =>
      match s.calls i with
      | some ⟨key, .running⟩ => some (s.put i ⟨key, .dropped⟩)
      | _ => none
  | .tick d => some { s with now := s.now + d }

def system (config : IdempotencyConfig) (json : SerdeJson Body) (ttl : Duration) :
    TransitionSystem (State Body) (Label Body) where
  init := ⟨0, .new ttl, fun _ => none⟩
  step := step config json

def State.Ran (s : State Body) (value : HeaderValue) (i : CallId) : Prop :=
  ∃ outcome, s.calls i = some ⟨some value, outcome⟩ ∧ outcome.Ran

/-- The handler runs at most once for a key, and the other requests with it get its response. -/
structure Idempotent (s : State Body) : Prop where
  once : ∀ value i j, s.Ran value i → s.Ran value j → i = j
  same : ∀ value i res, s.calls i = some ⟨some value, .replayed res⟩ →
    ∃ j first finished, s.calls j = some ⟨some value, .returned first finished⟩ ∧
      res.status = first.status ∧ res.body = first.body

/-- No request comes with the key of a response that is older than the TTL. -/
def WithinTtl (config : IdempotencyConfig) (s : State Body) (a : Label Body) : Prop :=
  ∀ i req value, a = .arrive i req → carried config req = some value → ∀ j res finished,
    s.calls j = some ⟨some value, .returned res finished⟩ → s.now - finished < s.store.ttl

/-- The replay says what the request got. -/
def Outcome.Settled (json : SerdeJson Body) : Outcome Body → Prop
  | .returned res _ => res.body = json.toText replayBody
  | .replayed _ => True
  | .running | .dropped => False

/-- A key comes again only when it is text, and when the handler has answered its first request
with the body of a replay. -/
def InTurn (config : IdempotencyConfig) (json : SerdeJson Body) (s : State Body)
    (a : Label Body) : Prop :=
  ∀ i req value, a = .arrive i req → carried config req = some value → ∀ j outcome,
    s.calls j = some ⟨some value, outcome⟩ → value.toStr.isSome ∧ outcome.Settled json

section Invariant

variable {config : IdempotencyConfig} {json : SerdeJson Body} {s s' : State Body} {i j : CallId}
  {key : Option HeaderValue} {value : HeaderValue} {res : Response Body}

theorem State.calls_put_self (call : Call Body) : (s.put i call).calls i = some call :=
  Function.update_self ..

theorem State.calls_put_of_ne (call : Call Body) (h : j ≠ i) :
    (s.put i call).calls j = s.calls j :=
  Function.update_of_ne h _ _

theorem State.ran_put {call : Call Body} : (s.put i call).Ran value j ↔
    if j = i then call.key = some value ∧ call.outcome.Ran else s.Ran value j := by
  split_ifs with hji
  · subst hji
    obtain ⟨key, outcome⟩ := call
    simp only [Ran, calls_put_self, Option.some.injEq, Call.mk.injEq]
    constructor
    · rintro ⟨outcome', ⟨rfl, rfl⟩, hran⟩
      exact ⟨rfl, hran⟩
    · rintro ⟨rfl, hran⟩
      exact ⟨outcome, ⟨rfl, rfl⟩, hran⟩
  · simp only [Ran, calls_put_of_ne _ hji]

def State.Open (s : State Body) (i : CallId) : Prop :=
  ∀ key res finished, s.calls i ≠ some ⟨key, .returned res finished⟩

theorem State.Open.put (hopen : s.Open i) {call : Call Body} {finished : Instant}
    (h : s.calls j = some ⟨key, .returned res finished⟩) :
    (s.put i call).calls j = some ⟨key, .returned res finished⟩ := by
  have hji : j ≠ i := by
    rintro rfl
    exact hopen _ _ _ h
  rw [calls_put_of_ne _ hji, h]

theorem Idempotent.put (h : Idempotent s) (hopen : s.Open i) {call : Call Body}
    (hran : call.outcome.Ran → ∀ value, call.key = some value → ∀ j ≠ i, ¬ s.Ran value j)
    (hreplay : ∀ res, call.outcome = .replayed res → ∀ value, call.key = some value →
      ∃ j first finished, s.calls j = some ⟨some value, .returned first finished⟩ ∧
        res.status = first.status ∧ res.body = first.body) : Idempotent (s.put i call) where
  once value a b ha hb := by
    rw [State.ran_put] at ha hb
    split_ifs at ha hb with hai hbi hbi
    · rw [hai, hbi]
    · exact absurd hb (hran ha.2 value ha.1 b hbi)
    · exact absurd ha (hran hb.2 value hb.1 a hai)
    · exact h.once value a b ha hb
  same value a res hcall := by
    have hfirst : ∃ j first finished,
        s.calls j = some ⟨some value, .returned first finished⟩ ∧
          res.status = first.status ∧ res.body = first.body := by
      by_cases hai : a = i
      · subst hai
        rw [State.calls_put_self] at hcall
        obtain rfl := Option.some.inj hcall
        exact hreplay res rfl value rfl
      · rw [State.calls_put_of_ne _ hai] at hcall
        exact h.same value a res hcall
    obtain ⟨j, first, finished, hj, hsame⟩ := hfirst
    exact ⟨j, first, finished, hopen.put hj, hsame⟩

theorem MemoryIdempotencyStore.cleanup_eq_some {store : MemoryIdempotencyStore} {now : Instant}
    {text : String} {e : UInt16 × Instant} :
    (store.cleanup now).inner text = some e ↔
      store.inner text = some e ∧ now - e.2 < store.ttl := by
  simp [cleanup, Option.filter_eq_some_iff]

theorem MemoryIdempotencyStore.inner_insert (store : MemoryIdempotencyStore) (text text' : String)
    (status : UInt16) (now : Instant) : (store.insert text status now).inner text' =
      if text' = text then some (status, now) else store.inner text' :=
  Function.update_apply ..

/-- The store has the answers of the handler that are not too old. -/
structure Consistent (s : State Body) : Prop extends Idempotent s where
  stored : ∀ value text j res finished, s.calls j = some ⟨some value, .returned res finished⟩ →
    value.toStr = some text →
      s.store.inner text = some (res.status.asU16, finished) ∨ s.store.ttl ≤ s.now - finished
  origin : ∀ text status finished, s.store.inner text = some (status, finished) →
    ∃ value j res, value.toStr = some text ∧
      s.calls j = some ⟨some value, .returned res finished⟩ ∧ status = res.status.asU16

namespace Consistent

theorem initial (ttl : Duration) : Consistent (system config json ttl).init where
  once _ _ _ h _ := by
    obtain ⟨outcome, hcall, -⟩ := h
    cases hcall
  same _ _ _ h := by cases h
  stored _ _ _ _ _ h := by cases h
  origin _ _ _ h := by cases h

theorem tick (h : Consistent s) (d : Duration) : Consistent { s with now := s.now + d } where
  once := h.once
  same := h.same
  stored value text j res finished hcall htext := by
    rcases h.stored value text j res finished hcall htext with hstored | hold
    · exact .inl hstored
    · exact .inr (hold.trans (Nat.sub_le_sub_right (Nat.le_add_right ..) _))
  origin := h.origin

theorem cleanup (h : Consistent s) : Consistent { s with store := s.store.cleanup s.now } where
  once := h.once
  same := h.same
  stored value text j res finished hcall htext := by
    rcases h.stored value text j res finished hcall htext with hstored | hold
    · by_cases hfresh : s.now - finished < s.store.ttl
      · exact .inl (MemoryIdempotencyStore.cleanup_eq_some.2 ⟨hstored, hfresh⟩)
      · exact .inr (Nat.le_of_not_lt hfresh)
    · exact .inr hold
  origin text status finished hstored :=
    h.origin text status finished (MemoryIdempotencyStore.cleanup_eq_some.1 hstored).1

theorem put (h : Consistent s) (hopen : s.Open i) {call : Call Body}
    (hput : Idempotent (s.put i call))
    (hcall : ∀ res finished, call.outcome ≠ .returned res finished) :
    Consistent (s.put i call) where
  toIdempotent := hput
  stored value text j res finished hj := by
    have hji : j ≠ i := by
      rintro rfl
      rw [State.calls_put_self] at hj
      exact hcall res finished (congrArg Call.outcome (Option.some.inj hj))
    rw [State.calls_put_of_ne _ hji] at hj
    exact h.stored value text j res finished hj
  origin text status finished hstored := by
    obtain ⟨value, j, res, htext, hj, hstatus⟩ := h.origin text status finished hstored
    exact ⟨value, j, res, htext, hopen.put hj, hstatus⟩

theorem start (h : Consistent s) (hi : s.calls i = none)
    (hnone : ∀ value, key = some value → ∀ j, ¬ s.Ran value j) :
    Consistent (s.put i ⟨key, .running⟩) := by
  have hopen : s.Open i := by simp [State.Open, hi]
  refine h.put hopen (h.toIdempotent.put hopen ?_ ?_) ?_
  · exact fun _ value hkey j _ => hnone value hkey j
  · exact fun res hres => by cases hres
  · exact fun res finished hres => by cases hres

theorem drop (h : Consistent s) (hi : s.calls i = some ⟨key, .running⟩) :
    Consistent (s.put i ⟨key, .dropped⟩) := by
  have hopen : s.Open i := by simp [State.Open, hi]
  refine h.put hopen (h.toIdempotent.put hopen ?_ ?_) ?_
  · rintro - value rfl j hji hran
    exact hji (h.once value j i hran ⟨_, hi, trivial⟩)
  · exact fun res hres => by cases hres
  · exact fun res finished hres => by cases hres

/-- A replay of a response with its body. -/
theorem again (h : Consistent s) (hi : s.calls i = none) {finished : Instant}
    (hj : s.calls j = some ⟨some value, .returned res finished⟩)
    (hbody : res.body = json.toText replayBody) :
    Consistent (s.put i ⟨some value, .replayed (replay json res.status.asU16)⟩) := by
  have hopen : s.Open i := by simp [State.Open, hi]
  refine h.put hopen (h.toIdempotent.put hopen ?_ ?_) ?_
  · exact fun hran => hran.elim
  · intro res' hres value' hvalue
    obtain rfl := Option.some.inj hvalue
    obtain rfl := Outcome.replayed.inj hres
    refine ⟨j, res, finished, hj, ?_, hbody.symm⟩
    simp [replay, Response.json]
  · exact fun res finished hres => by cases hres

theorem idempotent_finish (h : Consistent s) (hi : s.calls i = some ⟨key, .running⟩) :
    Idempotent (s.put i ⟨key, .returned res s.now⟩) := by
  have hopen : s.Open i := by simp [State.Open, hi]
  refine h.toIdempotent.put hopen ?_ ?_
  · rintro - value rfl j hji hran
    exact hji (h.once value j i hran ⟨_, hi, trivial⟩)
  · exact fun res hres => by cases hres

/-- The answer to a request whose key is no text. -/
theorem finish_opaque (h : Consistent s) (hi : s.calls i = some ⟨key, .running⟩)
    (hkey : ∀ value, key = some value → value.toStr = none) :
    Consistent (s.put i ⟨key, .returned res s.now⟩) where
  toIdempotent := h.idempotent_finish hi
  stored value text j res' finished hj hvalue := by
    by_cases hji : j = i
    · subst hji
      rw [State.calls_put_self] at hj
      obtain ⟨rfl, -⟩ := Call.mk.inj (Option.some.inj hj)
      exact absurd (hvalue.symm.trans (hkey value rfl)) (Option.some_ne_none _)
    · rw [State.calls_put_of_ne _ hji] at hj
      exact h.stored value text j res' finished hj hvalue
  origin text status finished hstored := by
    have hopen : s.Open i := by simp [State.Open, hi]
    obtain ⟨value, j, res', hvalue, hj, hstatus⟩ := h.origin text status finished hstored
    exact ⟨value, j, res', hvalue, hopen.put hj, hstatus⟩

theorem finish_text (h : Consistent s) (hi : s.calls i = some ⟨some value, .running⟩)
    {text : String} (htext : value.toStr = some text) :
    Consistent ({ s with store := s.store.insert text res.status.asU16 s.now }.put i
      ⟨some value, .returned res s.now⟩) where
  once := (h.idempotent_finish hi).once
  same := (h.idempotent_finish hi).same
  stored value' text' j res' finished hj hvalue := by
    by_cases hji : j = i
    · subst hji
      have hcall := Option.some.inj ((State.calls_put_self _).symm.trans hj)
      obtain ⟨hkey, houtcome⟩ := Call.mk.inj hcall
      obtain rfl := Option.some.inj hkey
      obtain ⟨rfl, rfl⟩ := Outcome.returned.inj houtcome
      obtain rfl := Option.some.inj (htext.symm.trans hvalue)
      exact .inl ((MemoryIdempotencyStore.inner_insert ..).trans (if_pos rfl))
    · have hold : s.calls j = some ⟨some value', .returned res' finished⟩ :=
        (State.calls_put_of_ne _ hji).symm.trans hj
      have hne : text' ≠ text := by
        rintro rfl
        obtain rfl := HeaderValue.toStr_injective htext hvalue
        exact hji (h.once value j i ⟨_, hold, trivial⟩ ⟨_, hi, trivial⟩)
      have hinner := (MemoryIdempotencyStore.inner_insert s.store text text' res.status.asU16
        s.now).trans (if_neg hne)
      exact (h.stored value' text' j res' finished hold hvalue).imp_left hinner.trans
  origin text' status finished hstored := by
    have hopen : s.Open i := by simp [State.Open, hi]
    have hinner := (MemoryIdempotencyStore.inner_insert ..).symm.trans hstored
    split_ifs at hinner with htext'
    · obtain ⟨rfl, rfl⟩ := Prod.mk.inj (Option.some.inj hinner)
      exact ⟨value, i, res, htext.trans (congrArg some htext'.symm), State.calls_put_self _, rfl⟩
    · obtain ⟨value', j, res', hvalue, hj, hstatus⟩ := h.origin text' status finished hinner
      exact ⟨value', j, res', hvalue, hopen.put hj, hstatus⟩

theorem finish (h : Consistent s) (hi : s.calls i = some ⟨key, .running⟩) :
    Consistent (s.finish i key res) := by
  unfold State.finish
  cases htext : key.bind HeaderValue.toStr with
  | none => exact h.finish_opaque hi (fun value hkey => by simpa [hkey] using htext)
  | some text =>
      obtain ⟨value, rfl, hvalue⟩ := Option.bind_eq_some_iff.1 htext
      exact h.finish_text hi hvalue

/-- A request that finds no answer is the first with its key. -/
theorem first (h : Consistent s) {text : String} (htext : value.toStr = some text)
    (hmiss : s.store.inner text = none)
    (hfresh : ∀ j res finished, s.calls j = some ⟨some value, .returned res finished⟩ →
      s.now - finished < s.store.ttl)
    (hturn : ∀ j outcome, s.calls j = some ⟨some value, outcome⟩ → outcome.Settled json)
    (j : CallId) : ¬ s.Ran value j := by
  rintro ⟨outcome, hcall, hran⟩
  have hsettled := hturn j outcome hcall
  cases outcome with
  | returned res finished =>
      rcases h.stored value text j res finished hcall htext with hstored | hold
      · exact Option.some_ne_none _ (hstored.symm.trans hmiss)
      · exact absurd (hfresh j res finished hcall) (Nat.not_lt_of_le hold)
  | replayed => exact hran
  | running | dropped => exact hsettled

theorem accept (h : Consistent s) (hi : s.calls i = none)
    (hfresh : ∀ value, key = some value → ∀ j res finished,
      s.calls j = some ⟨some value, .returned res finished⟩ → s.now - finished < s.store.ttl)
    (hturn : ∀ value, key = some value → ∀ j outcome, s.calls j = some ⟨some value, outcome⟩ →
      value.toStr.isSome ∧ outcome.Settled json) : Consistent (s.accept json i key) := by
  unfold State.accept
  cases htext : key.bind HeaderValue.toStr with
  | none =>
      refine h.start hi (fun value hkey j hran => ?_)
      obtain ⟨outcome, hcall, -⟩ := hran
      have hsome := (hturn value hkey j outcome hcall).1
      simp_all
  | some text =>
      obtain ⟨value, rfl, hvalue⟩ := Option.bind_eq_some_iff.1 htext
      have hclean := h.cleanup
      cases hinner : (s.store.cleanup s.now).inner text with
      | none =>
          simp only [MemoryIdempotencyStore.get, hinner, Option.map_none]
          refine hclean.start hi (fun value' hvalue' j => ?_)
          obtain rfl := Option.some.inj hvalue'
          exact hclean.first hvalue hinner (hfresh value rfl)
            (fun j outcome hcall => (hturn value rfl j outcome hcall).2) j
      | some e =>
          simp only [MemoryIdempotencyStore.get, hinner, Option.map_some]
          obtain ⟨value', j, res, hvalue', hj, hstatus⟩ := hclean.origin text e.1 e.2 hinner
          obtain rfl := HeaderValue.toStr_injective hvalue hvalue'
          rw [hstatus]
          exact hclean.again hi hj (hturn value rfl j _ hj).2

end Consistent

theorem Idempotent.exists_ran (h : Idempotent s) {outcome : Outcome Body}
    (hcall : s.calls j = some ⟨some value, outcome⟩) : ∃ j, s.Ran value j := by
  cases outcome with
  | replayed res =>
      obtain ⟨j', first, finished, hj', -⟩ := h.same value j res hcall
      exact ⟨j', _, hj', trivial⟩
  | _ => exact ⟨j, _, hcall, trivial⟩

/-- A second run for a key. -/
theorem not_idempotent_put_running (hi : s.calls i = none) (hran : s.Ran value j) :
    ¬ Idempotent (s.put i ⟨some value, .running⟩) := by
  intro hput
  have hji : j ≠ i := by
    rintro rfl
    obtain ⟨outcome, hcall, -⟩ := hran
    exact Option.some_ne_none _ (hcall.symm.trans hi)
  have hi' : (s.put i ⟨some value, .running⟩).Ran value i := State.ran_put.2 (by simp [Outcome.Ran])
  have hj' : (s.put i ⟨some value, .running⟩).Ran value j := State.ran_put.2 (by simp [hji, hran])
  exact hji (hput.once value j i hj' hi')

namespace Consistent

/-- A replay of a response with another body. -/
theorem not_again (h : Consistent s) (hi : s.calls i = none) {finished : Instant}
    (hj : s.calls j = some ⟨some value, .returned res finished⟩)
    (hbody : res.body ≠ json.toText replayBody) (status : UInt16) :
    ¬ Idempotent (s.put i ⟨some value, .replayed (replay json status)⟩) := by
  intro hput
  obtain ⟨j', first, finished', hj', -, hsame⟩ := hput.same value i _ (State.calls_put_self _)
  have hji : j' ≠ i := by
    rintro rfl
    cases (State.calls_put_self _).symm.trans hj'
  rw [State.calls_put_of_ne _ hji] at hj'
  obtain rfl := h.once value j j' ⟨_, hj, trivial⟩ ⟨_, hj', trivial⟩
  obtain ⟨-, houtcome⟩ := Call.mk.inj (Option.some.inj (hj.symm.trans hj'))
  obtain ⟨rfl, -⟩ := Outcome.returned.inj houtcome
  exact hbody hsame.symm

theorem not_accept (h : Consistent s) (hi : s.calls i = none) {outcome : Outcome Body}
    (hcall : s.calls j = some ⟨some value, outcome⟩)
    (hturn : ¬ (value.toStr.isSome ∧ outcome.Settled json)) :
    ¬ Idempotent (s.accept json i (some value)) := by
  obtain ⟨k, hran⟩ := h.toIdempotent.exists_ran hcall
  unfold State.accept
  cases htext : (some value).bind HeaderValue.toStr with
  | none => exact not_idempotent_put_running hi hran
  | some text =>
      have hvalue : value.toStr = some text := htext
      have hclean := h.cleanup
      cases hinner : (s.store.cleanup s.now).inner text with
      | none =>
          simp only [MemoryIdempotencyStore.get, hinner, Option.map_none]
          exact not_idempotent_put_running hi hran
      | some e =>
          simp only [MemoryIdempotencyStore.get, hinner, Option.map_some]
          obtain ⟨value', j', res, hvalue', hj', -⟩ := hclean.origin text e.1 e.2 hinner
          obtain rfl := HeaderValue.toStr_injective hvalue hvalue'
          refine hclean.not_again hi hj' (fun hbody => hturn ⟨by simp [hvalue], ?_⟩) e.1
          cases outcome with
          | replayed => trivial
          | returned res' finished =>
              obtain rfl := h.once value j j' ⟨_, hcall, trivial⟩ ⟨_, hj', trivial⟩
              cases hj'.symm.trans hcall
              exact hbody
          | running | dropped =>
              obtain rfl := h.once value j j' ⟨_, hcall, trivial⟩ ⟨_, hj', trivial⟩
              cases hj'.symm.trans hcall

end Consistent

/-- What a step can do. -/
theorem step_eq_some {a : Label Body} (h : step config json s a = some s') :
    (∃ i req, a = .arrive i req ∧ s.calls i = none ∧
        s' = s.accept json i (carried config req)) ∨
      (∃ i key res, a = .respond i res ∧ s.calls i = some ⟨key, .running⟩ ∧
        s' = s.finish i key res) ∨
      (∃ i key, a = .drop i ∧ s.calls i = some ⟨key, .running⟩ ∧ s' = s.put i ⟨key, .dropped⟩) ∨
      ∃ d, a = .tick d ∧ s' = { s with now := s.now + d } := by
  cases a with
  | arrive i req =>
      simp only [step] at h
      split at h
      · rename_i hi
        exact .inl ⟨i, req, rfl, hi, (Option.some.inj h).symm⟩
      · cases h
  | respond i res =>
      simp only [step] at h
      split at h
      · rename_i key hi
        exact .inr (.inl ⟨i, key, res, rfl, hi, (Option.some.inj h).symm⟩)
      · cases h
  | drop i =>
      simp only [step] at h
      split at h
      · rename_i key hi
        exact .inr (.inr (.inl ⟨i, key, rfl, hi, (Option.some.inj h).symm⟩))
      · cases h
  | tick d => exact .inr (.inr (.inr ⟨d, rfl, (Option.some.inj h).symm⟩))

theorem Consistent.next {a : Label Body} (h : Consistent s) (hfresh : WithinTtl config s a)
    (hturn : InTurn config json s a) (hstep : step config json s a = some s') : Consistent s' := by
  rcases step_eq_some hstep with ⟨i, req, rfl, hi, rfl⟩ | ⟨i, key, res, rfl, hi, rfl⟩ |
    ⟨i, key, rfl, hi, rfl⟩ | ⟨d, rfl, rfl⟩
  · exact h.accept hi (fun value => hfresh i req value rfl) (fun value => hturn i req value rfl)
  · exact h.finish hi
  · exact h.drop hi
  · exact h.tick d

theorem Consistent.not_next {a : Label Body} (h : Consistent s) (hturn : ¬ InTurn config json s a)
    (hstep : step config json s a = some s') : ¬ Idempotent s' := by
  unfold InTurn at hturn
  push Not at hturn
  obtain ⟨i, req, value, rfl, hkey, j, outcome, hcall, hsettled⟩ := hturn
  rcases step_eq_some hstep with ⟨_, _, hlabel, hi, rfl⟩ | ⟨_, _, _, hlabel, -⟩ |
    ⟨_, _, hlabel, -⟩ | ⟨_, hlabel, -⟩
  · obtain ⟨rfl, rfl⟩ := Label.arrive.inj hlabel
    rw [hkey]
    exact h.not_accept hi hcall (fun hand => hsettled hand.1 hand.2)
  · cases hlabel
  · cases hlabel
  · cases hlabel

/-- Within the TTL, the handler runs once for each key and its response is replayed exactly when no
key comes again before its answer, or after an answer that is not what a replay says. -/
theorem idempotent_iff {ttl : Duration} {run : List (Label Body)}
    (hexec : (system config json ttl).exec (system config json ttl).init run = some s')
    (hwithin : (system config json ttl).Along (WithinTtl config) (system config json ttl).init
      run) :
    (system config json ttl).Throughout Idempotent (system config json ttl).init run ↔
      (system config json ttl).Along (InTurn config json) (system config json ttl).init run :=
  TransitionSystem.throughout_iff_along_within (fun _ h => Consistent.toIdempotent h)
    (fun _ _ _ h hfresh hturn hstep => h.next hfresh hturn hstep)
    (fun _ _ _ h _ hturn hstep => h.not_next hturn hstep) (Consistent.initial ttl) hexec hwithin

end Invariant

def keyedRequest : Request Json where
  method := .post
  uri := ⟨none, none, "/orders", none⟩
  headers := [("idempotency-key", .ofText "k" (by decide))]
  body := .null

def created : Response Json := ⟨⟨201, by decide⟩, [], .str "order 7"⟩

def acknowledged : Response Json :=
  ⟨⟨201, by decide⟩, [], (default : SerdeJson Json).toText replayBody⟩

def twice : List (Label Json) :=
  [.arrive 0 keyedRequest, .respond 0 acknowledged, .tick 3, .arrive 1 keyedRequest]

theorem idempotent_iff_twice : ∃ s',
    (system .default default 5).exec (system .default default 5).init twice = some s' ∧
      (∃ call, s'.calls 1 = some call ∧ ¬ call.outcome.Ran) ∧
        (system .default default 5).Throughout Idempotent (system .default default 5).init
          twice := by
  have hwithin : (system .default default 5).Along (WithinTtl .default)
      (system .default default 5).init twice := by
    refine TransitionSystem.along_cons ?_ rfl ?_
    · rintro i req value ⟨⟩ hkey j res finished ⟨⟩
    apply TransitionSystem.along_cons nofun rfl
    apply TransitionSystem.along_cons nofun rfl
    refine TransitionSystem.along_cons ?_ rfl trivial
    intro i req value hlabel hkey j res finished hj
    exact (Nat.sub_le 3 finished).trans_lt (by decide)
  have hturn : (system .default default 5).Along (InTurn .default default)
      (system .default default 5).init twice := by
    refine TransitionSystem.along_cons ?_ rfl ?_
    · rintro i req value ⟨⟩ hkey j outcome ⟨⟩
    apply TransitionSystem.along_cons nofun rfl
    apply TransitionSystem.along_cons nofun rfl
    refine TransitionSystem.along_cons ?_ rfl trivial
    intro i req value hlabel hkey j outcome hj
    by_cases h0 : j = 0
    · subst h0
      cases hj
      exact ⟨rfl, rfl⟩
    · have hnone := (State.calls_put_of_ne _ h0).symm.trans hj
      cases (State.calls_put_of_ne _ h0).symm.trans hnone
  exact ⟨_, rfl, ⟨_, rfl, not_false⟩, (idempotent_iff rfl hwithin).2 hturn⟩

/-- A second request runs the handler again while the first one waits, and after the answer of the
first one it is told that all is well. -/
theorem not_idempotent :
    (∃ s', (system .default default 5).exec (system .default default 5).init
        [.arrive 0 keyedRequest, .arrive 1 keyedRequest] = some s' ∧
      (system .default default 5).Along (WithinTtl .default) (system .default default 5).init
        [.arrive 0 keyedRequest, .arrive 1 keyedRequest] ∧ ¬ Idempotent s') ∧
      ∃ s', (system .default default 5).exec (system .default default 5).init
          [.arrive 0 keyedRequest, .respond 0 created, .arrive 1 keyedRequest] = some s' ∧
        (system .default default 5).Along (WithinTtl .default) (system .default default 5).init
          [.arrive 0 keyedRequest, .respond 0 created, .arrive 1 keyedRequest] ∧
        ¬ Idempotent s' := by
  refine ⟨⟨_, rfl, ⟨?_, ?_⟩, ?_⟩, ⟨_, rfl, ⟨?_, ?_⟩, ?_⟩⟩
  · intro i req value hlabel hkey j res finished hj
    cases hj
  · intro s' hstep
    obtain rfl := Option.some.inj hstep
    refine ⟨?_, fun _ _ => trivial⟩
    intro i req value hlabel hkey j res finished hj
    by_cases h0 : j = 0
    · subst h0
      cases hj
    · cases (State.calls_put_of_ne _ h0).symm.trans hj
  · intro h
    have hboth := h.once (.ofText "k" (by decide)) 0 1 ⟨_, rfl, trivial⟩ ⟨_, rfl, trivial⟩
    exact absurd hboth (by decide)
  · intro i req value hlabel hkey j res finished hj
    cases hj
  · intro s' hstep
    obtain rfl := Option.some.inj hstep
    refine ⟨fun i req value hlabel => (nomatch hlabel), fun t ht => ?_⟩
    obtain rfl := Option.some.inj ht
    refine ⟨?_, fun _ _ => trivial⟩
    intro i req value hlabel hkey j res finished hj
    exact (Nat.zero_sub finished).trans_lt (by decide)
  · intro h
    obtain ⟨j, first, finished, hj, -, hbody⟩ := h.same (.ofText "k" (by decide)) 1 _ rfl
    by_cases h0 : j = 0
    · subst h0
      cases hj
      cases hbody
    · by_cases h1 : j = 1
      · subst h1
        cases hj
      · have hnone := (State.calls_put_of_ne _ h1).symm.trans hj
        have hfirst := (State.calls_put_of_ne _ h0).symm.trans hnone
        cases (State.calls_put_of_ne _ h0).symm.trans hfirst

end Rszero.Idempotency
