import Mathlib.Order.Lattice
import Rszero.ResponseCache

/-!
# Answers with and without the cache

An answer from the cache has the status and the body of an earlier response, to a request with the
same method and URI, and none of the headers. So the cache shows where the handler reads the body of
a request or sets a header, and where a body fails.
-/

namespace Rszero.ResponseCache

open Http

variable {Text : Type}

def headersApartFromXCache (res : Response Body) : HeaderMap :=
  res.headers.filter (fun header => header.1 ≠ "x-cache")

/-- The client sees the same, apart from `X-Cache`. -/
def SameAnswer (res own : Response Body) : Prop :=
  res.status = own.status ∧ headersApartFromXCache res = headersApartFromXCache own ∧
    res.body.read = own.body.read

def Transparent (x : State Text × History) : Prop :=
  ∀ answer ∈ x.2.answers, SameAnswer answer.2 answer.1.response

/-- A request answered from the cache is one that the handler answers with no header, and with the
status and body of the stored response. A response that is to be stored has a body that does not
fail. -/
def Reusable (config : CacheConfig) (json : SerdeJson Text) (x : State Text × History)
    (a : Exchange) : Prop :=
  (x.1.found config json a ≠ none → ∀ e, x.2.stored (cacheKey a.request) = some e →
    e.response.status = a.response.status ∧ headersApartFromXCache a.response = [] ∧
      e.response.body.read = a.response.body.read) ∧
    (x.1.Fetches config json a → a.response.body.complete)

section Steps

variable {config : CacheConfig} {json : SerdeJson Text} {x : State Text × History} {a e : Exchange}

theorem read_of_complete {body : Body} (h : body.complete) :
    body.read = (body.toBytes.getD [], true) := by
  rw [Body.toBytes_of_complete h, Body.read, h]
  rfl

theorem sameAnswer_hit_iff (he : e.response.body.complete) {own : Response Body} :
    SameAnswer (hitResponse e.entry) own ↔ e.response.status = own.status ∧
      headersApartFromXCache own = [] ∧ e.response.body.read = own.body.read := by
  have hheaders : headersApartFromXCache (hitResponse e.entry) = [] := by
    simp [headersApartFromXCache, hitResponse]
  have hstatus : (hitResponse e.entry).status = e.response.status := by
    simp [hitResponse, Exchange.entry, CachedEntry.new]
  have hread : (hitResponse e.entry).body.read = e.response.body.read := by
    rw [read_of_complete he, hitResponse, Body.read_ofBytes, Exchange.entry, CachedEntry.body_new,
      Exchange.bytes]
  rw [SameAnswer, hheaders, hstatus, hread, eq_comm (a := ([] : HeaderMap))]

theorem sameAnswer_fetched_iff :
    SameAnswer { a.response with body := .ofBytes a.bytes } a.response ↔
      a.response.body.complete := by
  constructor
  · rintro ⟨-, -, hread⟩
    rw [Body.read_ofBytes] at hread
    exact (congrArg Prod.snd hread).symm
  · intro hcomplete
    refine ⟨rfl, rfl, ?_⟩
    rw [read_of_complete hcomplete, Body.read_ofBytes, Exchange.bytes]

/-- The answer is that of the handler exactly when the exchange is reusable. -/
theorem sameAnswer_iff (hkept : Kept json x) :
    SameAnswer (x.1.answer config json a) a.response ↔ Reusable config json x a := by
  cases hfound : x.1.found config json a with
  | some entry =>
      obtain ⟨e, hstored, -, -, rfl, hcomplete⟩ := hkept.found hfound
      have hnot : ¬ x.1.Fetches config json a := by simp [State.Fetches, hfound]
      rw [(handle_of_found hfound).1, sameAnswer_hit_iff hcomplete]
      simp [Reusable, hfound, hstored, hnot]
  | none =>
      by_cases hfetches : x.1.Fetches config json a
      · rw [(handle_of_fetches hfetches).1, sameAnswer_fetched_iff]
        simp [Reusable, hfound, hfetches]
      · rw [(handle_of_not_fetches hfound hfetches).1]
        exact iff_of_true ⟨rfl, rfl, rfl⟩ (by simp [Reusable, hfound, hfetches])

end Steps

structure Visit where
  elapsed : ℕ
  request : Request Bytes
  readFails : Bool
  writeFails : Bool

/-- The exchange with a handler that looks at method, URI and body alone. -/
def Visit.exchange (handler : Method → Uri → Bytes → Response Body) (v : Visit) : Exchange :=
  ⟨v.elapsed, v.request, handler v.request.method v.request.uri v.request.body, v.readFails,
    v.writeFails⟩

/-- Every client sees what the handler answers to its request exactly when every exchange is
reusable. -/
theorem transparent_iff (config : CacheConfig) (json : SerdeJson Text)
    (handler : Method → Uri → Bytes → Response Body) (visits : List Visit) :
    (withHistory config json).Throughout Transparent (withHistory config json).init
        (visits.map (Visit.exchange handler)) ↔
      (withHistory config json).Along (Reusable config json) (withHistory config json).init
        (visits.map (Visit.exchange handler)) := by
  obtain ⟨x, hexec⟩ := TransitionSystem.exists_exec_of_total (withHistory config json)
    (fun _ _ => ⟨_, rfl⟩) (withHistory config json).init (visits.map (Visit.exchange handler))
  refine TransitionSystem.throughout_iff_along (I := fun x => Kept json x ∧ Transparent x)
    (fun x h => h.2) ?_ ?_ ⟨Kept.initial, fun answer h => absurd h List.not_mem_nil⟩ hexec
  · rintro x a y ⟨hkept, htransparent⟩ hreusable hstep
    obtain rfl := Option.some.inj hstep
    refine ⟨hkept.next (fun hstores => hreusable.2 hstores.1), ?_⟩
    intro answer hanswer
    rcases List.mem_cons.1 hanswer with rfl | hold
    · exact (sameAnswer_iff hkept).2 hreusable
    · exact htransparent answer hold
  · rintro x a y ⟨hkept, -⟩ hreusable hstep htransparent
    obtain rfl := Option.some.inj hstep
    exact hreusable ((sameAnswer_iff hkept).1 (htransparent _ List.mem_cons_self))

def pageVisit : Visit := ⟨1, ⟨.get, ⟨none, none, "/users", none⟩, [], []⟩, false, false⟩

def pageHandler (_ : Method) (_ : Uri) (_ : Bytes) : Response Body :=
  ⟨.ok, [("content-type", applicationJson)], .ofBytes [91, 93]⟩

/-- Two bodies posted under one URI, and the handler that echoes them. -/
def echoVisit (body : Bytes) : Visit :=
  ⟨1, ⟨.post, ⟨none, none, "/echo", none⟩, [], body⟩, false, false⟩

def echoHandler (_ : Method) (_ : Uri) (body : Bytes) : Response Body := ⟨.ok, [], .ofBytes body⟩

theorem not_transparent :
    (∃ x, (withHistory .default (default : SerdeJson Json)).exec
        (withHistory .default (default : SerdeJson Json)).init
          ([pageVisit, pageVisit].map (Visit.exchange pageHandler)) = some x ∧ ¬ Transparent x) ∧
      ∃ x, (withHistory ⟨60, [200], false⟩ (default : SerdeJson Json)).exec
        (withHistory ⟨60, [200], false⟩ (default : SerdeJson Json)).init
          ([echoVisit [49], echoVisit [50]].map (Visit.exchange echoHandler)) = some x ∧
        ¬ Transparent x := by
  refine ⟨⟨_, rfl, fun h => ?_⟩, ⟨_, rfl, fun h => ?_⟩⟩
  · exact absurd (h _ List.mem_cons_self).2.1 (by decide)
  · exact absurd (h _ List.mem_cons_self).2.2 (by decide)

end Rszero.ResponseCache
