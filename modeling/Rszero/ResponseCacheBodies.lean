import Mathlib.Order.Lattice
import Rszero.ResponseCache

/-!
# Stored responses and failing bodies

A response whose body fails is stored as one with no body, and is served from then on.
-/

namespace Rszero.ResponseCache

open Http

variable {Text : Type} {config : CacheConfig} {json : SerdeJson Text} {x y : State Text × History}
  {a : Exchange}

/-- What is stored was read to its end, and an answer from the cache has the bytes of a body that
the handler produced in full under this key. -/
structure Sound (x : State Text × History) : Prop where
  writes : ∀ e ∈ x.2.writes, e.response.body.complete
  hits : ∀ hit ∈ x.2.hits, ∃ e ∈ x.2.produced, cacheKey e.request = hit.1 ∧
    e.response.body.toBytes = some hit.2.body.bytes ∧ hit.2.body.complete

/-- The body does not fail, unless the response is not one to be stored, the request is answered
from the cache, or Redis does not take the entry. -/
def Whole (config : CacheConfig) (json : SerdeJson Text) (x : State Text × History)
    (a : Exchange) : Prop :=
  a.response.body.complete ∨ ¬ isCacheableRequest config a.request ∨
    ¬ isCacheableResponse config a.response ∨ x.1.found config json a ≠ none ∨ a.writeFails ∨
    config.ttl.toInt64 ≤ 0

theorem whole_iff :
    Whole config json x a ↔ (x.1.Stores config json a → a.response.body.complete) := by
  unfold Whole State.Stores State.Fetches
  tauto

theorem Exchange.body_entry (h : a.response.body.complete) :
    a.response.body.toBytes = some a.entry.body := by
  rw [Exchange.entry, CachedEntry.body_new, Exchange.bytes, Body.toBytes_of_complete h]
  rfl

theorem hits_next (hkept : Kept json x) (hsound : Sound x) :
    ∀ hit ∈ (x.2.next config json x.1 a).hits,
      ∃ e ∈ (x.2.next config json x.1 a).produced, cacheKey e.request = hit.1 ∧
        e.response.body.toBytes = some hit.2.body.bytes ∧ hit.2.body.complete := by
  intro hit hhit
  cases hfound : x.1.found config json a with
  | none =>
      simp only [History.next, hfound, if_true] at hhit ⊢
      obtain ⟨e, he, hrest⟩ := hsound.hits hit hhit
      exact ⟨e, List.mem_cons_of_mem _ he, hrest⟩
  | some entry =>
      simp only [History.next, hfound, reduceCtorEq, if_false] at hhit ⊢
      rcases List.mem_cons.1 hhit with rfl | hold
      · obtain ⟨e, -, he, hkey, rfl, hcomplete⟩ := hkept.found hfound
        refine ⟨e, he, hkey, ?_⟩
        rw [(handle_of_found hfound).1, Exchange.body_entry hcomplete]
        exact ⟨by simp [hitResponse, Body.ofBytes, Body.bytes], rfl⟩
      · exact hsound.hits hit hold

theorem Sound.next (hkept : Kept json x) (hsound : Sound x) (hwhole : Whole config json x a) :
    Sound (x.1.next config json a, x.2.next config json x.1 a) where
  writes := by
    intro e he
    simp only [History.next] at he
    split_ifs at he with hstores
    · rcases List.mem_cons.1 he with rfl | he
      · exact whole_iff.1 hwhole hstores
      · exact hsound.writes e he
    · exact hsound.writes e he
  hits := hits_next hkept hsound

theorem not_sound_next (hwhole : ¬ Whole config json x a) :
    ¬ Sound (x.1.next config json a, x.2.next config json x.1 a) := by
  intro hsound
  obtain ⟨hstores, hfailed⟩ := Classical.not_imp.1 (fun h => hwhole (whole_iff.2 h))
  have hmem : a ∈ (x.2.next config json x.1 a).writes := by simp [History.next, hstores]
  exact hfailed (hsound.writes a hmem)

/-- Stored responses are complete, and so are the answers from the cache, exactly when no body fails
whose response is stored. -/
theorem sound_iff (config : CacheConfig) (json : SerdeJson Text) (run : List Exchange) :
    (withHistory config json).Throughout Sound (withHistory config json).init run ↔
      (withHistory config json).Along (Whole config json) (withHistory config json).init run := by
  obtain ⟨x, hexec⟩ := TransitionSystem.exists_exec_of_total (withHistory config json)
    (fun _ _ => ⟨_, rfl⟩) (withHistory config json).init run
  refine TransitionSystem.throughout_iff_along (I := fun x => Kept json x ∧ Sound x)
    (fun x h => h.2) ?_ ?_ ⟨Kept.initial, ?_⟩ hexec
  · rintro x a y ⟨hkept, hsound⟩ hwhole hstep
    obtain rfl := Option.some.inj hstep
    exact ⟨hkept.next (whole_iff.1 hwhole), hsound.next hkept hwhole⟩
  · rintro x a y - hwhole hstep
    obtain rfl := Option.some.inj hstep
    exact not_sound_next hwhole
  · exact ⟨fun e he => absurd he List.not_mem_nil, fun hit hhit => absurd hhit List.not_mem_nil⟩

def failingReport : Exchange where
  elapsed := 1
  request := ⟨.get, ⟨none, none, "/report", none⟩, [], []⟩
  response := ⟨.ok, [], ⟨[[49, 50]], false⟩⟩
  readFails := false
  writeFails := false

/-- It is stored, and the second request gets an empty report. -/
theorem not_sound : ∃ x, (withHistory .default (default : SerdeJson Json)).exec
      (withHistory .default (default : SerdeJson Json)).init [failingReport, failingReport] =
        some x ∧
    ¬ Sound x ∧ x.2.hits.map (fun hit => hit.2.body.read) = [([], true)] := by
  refine ⟨_, rfl, fun h => ?_, by decide⟩
  exact absurd (h.writes failingReport List.mem_cons_self) (by decide)

end Rszero.ResponseCache
