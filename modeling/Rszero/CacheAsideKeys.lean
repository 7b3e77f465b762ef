import Rszero.CacheAside
import Rszero.SingleFlightSharing

/-!
# Keys that share a flight

`cache_aside_singleflight` names a flight by the `Debug` text of the key. Calls with different keys
of one text share a flight, and the followers get what the loader of the leader's key loaded. An
outcome carries the call whose closure it comes from.
-/

namespace Rszero.CacheAside

open SingleFlight (CallId Label Move Registered)

structure Outcome (V : Type) where
  source : CallId
  loaded : Bool
  result : Except RszeroError V

/-- The calls on a group, each with its key and the clone of the cache that its closure captures. -/
structure Calls (K V : Type) where
  key : CallId → K
  clone : CallId → MemCache.Cache K V
  lookedUpAt : CallId → MemCache.Instant

variable {K V : Type} [DecidableEq K]

namespace Calls

def keyForWork (calls : Calls K V) (debug : K → String) (c : CallId) : String :=
  debug (calls.key c)

def cached (calls : Calls K V) (c : CallId) : Option V :=
  ((calls.clone c).get (calls.key c) (calls.lookedUpAt c)).1

/-- How the closure of a call may end: with the value in the clone, or with what the loader
returns. -/
def Ends (calls : Calls K V) (c : CallId) (outcome : Outcome V) : Prop :=
  match calls.cached c with
  | some value => outcome = ⟨c, false, .ok value⟩
  | none => outcome.source = c ∧ outcome.loaded

/-- The closures do what `cache_aside_singleflight` gives them to do. -/
def Loads (calls : Calls K V) (_ : SingleFlight.State (Outcome V)) : Label (Outcome V) → Prop
  | .finish c outcome => calls.Ends c outcome
  | _ => True

/-- A call returns nothing that was loaded for another key, and a call that misses in its clone
leaves the load to a call for its own key only. -/
structure KeysSeparated (calls : Calls K V) (s : SingleFlight.State (Outcome V)) : Prop where
  returns_own : ∀ c outcome, s.calls c = .returned outcome → outcome.loaded →
    calls.key outcome.source = calls.key c
  suppressed_by_own : ∀ c outcome, s.calls c = .returned outcome → calls.cached c = none →
    outcome.source ≠ c → calls.key outcome.source = calls.key c

/-- Where the outcomes that a call has to do with come from. -/
def Sourced (key : CallId → String) (c : CallId) : SingleFlight.Pc (Outcome V) → Prop
  | .recvFast ch _ | .recvSlow ch _ => key ch = key c
  | .cleanUp outcome => outcome.source = c
  | .returned outcome => key outcome.source = key c
  | _ => True

section Step

variable {calls : Calls K V} {key : CallId → String} {s s' : SingleFlight.State (Outcome V)}
  {a : Label (Outcome V)}

theorem source_of_ends {c : CallId} {outcome : Outcome V} (h : calls.Ends c outcome) :
    outcome.source = c := by
  unfold Ends at h
  split at h
  · rw [h]
  · exact h.1

/-- The outcomes of a call, on its channel and in its hands. -/
structure Flight (key : CallId → String) (c : CallId) (pc : SingleFlight.Pc (Outcome V))
    (sent : List (Outcome V)) : Prop where
  sent : ∀ outcome ∈ sent, outcome.source = c
  sourced : Sourced key c pc

theorem key_of_received (h : ∀ d, Flight key d (s.calls d) (s.sent d)) {c ch : CallId} {next : ℕ}
    {outcome : Outcome V} (hch : key ch = key c)
    (hr : SingleFlight.received key s ch next = .value outcome) :
    key outcome.source = key c := by
  have hsent := List.mem_of_getElem? (BroadcastChannel.getElem?_of_recv_eq_value hr)
  rw [(h ch).sent outcome hsent, hch]

theorem flight_next (hs : Registered key s) (h : ∀ d, Flight key d (s.calls d) (s.sent d))
    (hloads : calls.Loads s a) (hmove : Move key s a s') :
    ∀ d, Flight key d (s'.calls d) (s'.sent d) := by
  refine hmove.forall_calls h ?_
  have hc := h a.caller
  cases hmove with
  | begin hpc | miss hpc | failed hpc | lead hpc | abort hpc =>
      simp only [Label.caller, SingleFlight.lead, SingleFlight.State.put_calls_self]
      exact ⟨hc.sent, trivial⟩
  | hit hpc hw hk | park hpc hw hk =>
      simp only [Label.caller, SingleFlight.State.put_calls_self]
      exact ⟨hc.sent, hs.entry _ _ hk⟩
  | served hpc hr | servedSlow hpc hr =>
      have hsourced := hc.sourced
      simp only [Label.caller, hpc, SingleFlight.State.put_calls_self] at hsourced ⊢
      exact ⟨hc.sent, key_of_received h hsourced hr⟩
  | failedSlow hpc hr => exact absurd hr (hs.recvSlow_fails hpc)
  | remove hpc hw =>
      have hsourced := hc.sourced
      simp only [Label.caller, hpc, SingleFlight.State.put_calls_self] at hsourced ⊢
      exact ⟨hc.sent, congrArg key hsourced⟩
  | @finish c outcome hpc =>
      have hsource := source_of_ends hloads
      simp only [Label.caller, SingleFlight.State.put_calls_self, SingleFlight.State.put_sent,
        Function.update_self] at hc ⊢
      refine ⟨fun outcome' houtcome' => ?_, hsource⟩
      rcases List.mem_append.1 houtcome' with hmem | hmem
      · exact hc.sent outcome' hmem
      · rw [List.mem_singleton.1 hmem, hsource]

theorem flight_reachable (hx : (SingleFlight.system (Outcome V) key).Reachable calls.Loads s) :
    Registered key s ∧ ∀ d, Flight key d (s.calls d) (s.sent d) := by
  refine hx.invariant
    (I := fun s => Registered key s ∧ ∀ d, Flight key d (s.calls d) (s.sent d)) ?_ ?_
  · exact ⟨.initial, fun d => ⟨fun _ h => absurd h List.not_mem_nil, trivial⟩⟩
  · rintro t b t' ⟨hregistered, hflight⟩ hloads hstep
    exact ⟨hregistered.next hstep,
      flight_next hregistered hflight hloads (SingleFlight.next_move hstep)⟩

end Step

theorem keysSeparated_of_reachable {calls : Calls K V} {key : CallId → String}
    {s : SingleFlight.State (Outcome V)}
    (hkey : ∀ c d, key c = key d → calls.key c = calls.key d)
    (hx : (SingleFlight.system (Outcome V) key).Reachable calls.Loads s) :
    KeysSeparated calls s := by
  have hreturned (c : CallId) (outcome : Outcome V) (hc : s.calls c = .returned outcome) :
      calls.key outcome.source = calls.key c := by
    have hsourced := ((flight_reachable hx).2 c).sourced
    rw [hc] at hsourced
    exact hkey _ _ hsourced
  constructor
  · intro c outcome hc _
    exact hreturned c outcome hc
  · intro c outcome hc _ _
    exact hreturned c outcome hc

end Calls

/-- Calls with empty caches, the call 0 for the first key and all others for the second. -/
def twoKeys (V : Type) (first second : K) : Calls K V where
  key c := if c = 0 then first else second
  clone _ := .new 10
  lookedUpAt _ := 0

omit [DecidableEq K] in
theorem keyForWork_twoKeys {debug : K → String} {first second : K}
    (htext : debug first = debug second) :
    (twoKeys V first second).keyForWork debug = fun _ => debug first := by
  funext c
  change debug (if c = 0 then first else second) = debug first
  split_ifs
  · rfl
  · exact htext.symm

def followRun {R : Type} (result : R) : List (Label R) :=
  [.begin 0, .step 0, .step 0, .begin 1, .step 1, .finish 0 result, .step 1]

theorem followRun_returned {R : Type} (text : String) (result : R) :
    ∃ s, (SingleFlight.system R (fun _ => text)).exec
        (SingleFlight.system R (fun _ => text)).init (followRun result) = some s ∧
      s.calls 1 = .returned result := by
  simp [followRun, TransitionSystem.exec, SingleFlight.system, SingleFlight.State.next,
    SingleFlight.advance, SingleFlight.lead, SingleFlight.State.put, SingleFlight.received,
    SingleFlight.channelCapacity, BroadcastChannel.recv, BroadcastChannel.subscribe,
    Function.update]

/-- Of two calls for keys of one text, the second may return whatever the loader of the first gives
to the first. -/
theorem leak_of_debug_eq {debug : K → String} {first second : K}
    (htext : debug first = debug second) (result : Except RszeroError V) :
    ∃ s, (SingleFlight.system (Outcome V)
        ((twoKeys V first second).keyForWork debug)).Reachable (twoKeys V first second).Loads s ∧
      s.calls 1 = .returned ⟨0, true, result⟩ := by
  obtain ⟨s, hexec, hreturned⟩ := followRun_returned (debug first) (⟨0, true, result⟩ : Outcome V)
  refine ⟨s, ?_, hreturned⟩
  rw [keyForWork_twoKeys htext]
  apply TransitionSystem.Reachable.exec_of_mem _ .init _ hexec
  intro a ha t
  simp only [followRun, List.mem_cons, List.not_mem_nil, or_false] at ha
  rcases ha with rfl | rfl | rfl | rfl | rfl | rfl | rfl
  all_goals trivial

/-- The loads of two keys stay apart in every run, whatever the calls and however they interleave,
if and only if no two keys have the same `Debug` text. -/
theorem keysSeparated_iff_injective (debug : K → String) :
    (∀ (calls : Calls K V) (s : SingleFlight.State (Outcome V)),
        (SingleFlight.system (Outcome V) (calls.keyForWork debug)).Reachable calls.Loads s →
          calls.KeysSeparated s) ↔
      Function.Injective debug := by
  constructor
  · intro hseparated first second htext
    obtain ⟨s, hx, hreturned⟩ := leak_of_debug_eq (V := V) htext (.error .rateLimit)
    exact (hseparated _ s hx).returns_own 1 _ hreturned rfl
  · intro hinjective calls s hx
    apply Calls.keysSeparated_of_reachable _ hx
    intro c d hcd
    exact hinjective hcd

/-- Two keys that a redacting `Debug` renders alike: the call for the key 2 returns what was loaded
for the key 1. -/
theorem redactedKeys_not_separated :
    ∃ s, (SingleFlight.system (Outcome ℕ)
        ((twoKeys ℕ 1 2).keyForWork (fun _ => "UserId(..)"))).Reachable (twoKeys ℕ 1 2).Loads s ∧
      s.calls 1 = .returned ⟨0, true, .ok 42⟩ ∧ (twoKeys ℕ 1 2).key 0 = 1 ∧
      (twoKeys ℕ 1 2).key 1 = 2 ∧ ¬ (twoKeys ℕ 1 2).KeysSeparated s := by
  obtain ⟨s, hx, hreturned⟩ :=
    @leak_of_debug_eq ℕ ℕ _ (fun _ => "UserId(..)") 1 2 rfl (.ok 42)
  refine ⟨s, hx, hreturned, rfl, rfl, ?_⟩
  intro hseparated
  exact absurd (hseparated.returns_own 1 _ hreturned rfl) (by decide)

end Rszero.CacheAside
