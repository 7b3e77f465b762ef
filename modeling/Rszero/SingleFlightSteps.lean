import Rszero.BroadcastChannel
import Rszero.TransitionSystem
import Mathlib.Data.Nat.Notation
import Mathlib.Logic.Function.Basic

/-!
# Interleaved calls of a single-flight group

A step of `Group::work` is the code from one await point to the next. The await points are the
acquisitions of the lock on the map, `recv` and the closure. A read guard lives inside one step; a
write guard outlives its step only when the slow path finds an entry and awaits its channel under
the guard. A free lock may go to any call that waits for it. A call is identified with the channel
it makes. The closure ends when it likes, and at every await point the future of a call may be
dropped or its closure may panic.
-/

namespace Rszero.SingleFlight

open BroadcastChannel

abbrev CallId := ℕ

/-- The point a call has reached, named after what it does next. A receiver is a channel and its
index into it. -/
inductive Pc (R : Type)
  | idle
  | readInflight
  | recvFast (ch : CallId) (next : ℕ)
  | writeInflight
  | recvSlow (ch : CallId) (next : ℕ)
  | running
  | cleanUp (result : R)
  | returned (result : R)
  | dropped

/-- The map holds for a key the sender of the channel that the call in it made. -/
structure State (R : Type) where
  inflight : String → Option CallId
  writer : Option CallId
  sent : CallId → List R
  calls : CallId → Pc R

inductive Label (R : Type)
  | begin (c : CallId)
  | step (c : CallId)
  | finish (c : CallId) (result : R)
  | abort (c : CallId)

variable {R : Type}

def Label.caller : Label R → CallId
  | .begin c | .step c | .finish c _ | .abort c => c

def Pc.holdsSender : Pc R → Bool
  | .writeInflight | .recvSlow _ _ | .running | .cleanUp _ => true
  | _ => false

def Pc.live : Pc R → Bool
  | .idle | .returned _ | .dropped => false
  | _ => true

def Pc.executing : Pc R → Bool
  | .running => true
  | _ => false

theorem executing_iff {pc : Pc R} : pc.executing ↔ pc = .running := by
  cases pc
  all_goals simp [Pc.executing]

namespace State

def put (s : State R) (c : CallId) (pc : Pc R) : State R :=
  { s with calls := Function.update s.calls c pc }

@[simp] theorem put_inflight (s : State R) (c : CallId) (pc : Pc R) :
    (s.put c pc).inflight = s.inflight := rfl

@[simp] theorem put_writer (s : State R) (c : CallId) (pc : Pc R) :
    (s.put c pc).writer = s.writer := rfl

@[simp] theorem put_sent (s : State R) (c : CallId) (pc : Pc R) : (s.put c pc).sent = s.sent := rfl

@[simp] theorem put_calls_self (s : State R) (c : CallId) (pc : Pc R) :
    (s.put c pc).calls c = pc := Function.update_self ..

theorem put_calls_of_ne (s : State R) {c d : CallId} (pc : Pc R) (h : d ≠ c) :
    (s.put c pc).calls d = s.calls d := Function.update_of_ne h ..

end State

def channelCapacity : ℕ := 128

variable (key : CallId → String)

/-- There is a sender: the one of the call that made the channel, or the one in the map. -/
def senderAlive (s : State R) (ch : CallId) : Bool :=
  (s.calls ch).holdsSender || s.inflight (key ch) == some ch

def received (s : State R) (ch : CallId) (next : ℕ) : Received R :=
  recv channelCapacity (s.sent ch) (senderAlive key s ch) next

/-- The call puts its own sender in the map, gives the lock back and starts its closure. -/
def lead (s : State R) (c : CallId) : State R :=
  { s with inflight := Function.update s.inflight (key c) (some c), writer := none }.put c .running

/-- One step of call `c`; `none` while it waits for something else. -/
def advance (s : State R) (c : CallId) : Option (State R) :=
  match s.calls c with
  | .readInflight =>
      if s.writer ≠ none then none
      else match s.inflight (key c) with
        | some ch => some (s.put c (.recvFast ch (subscribe (s.sent ch))))
        | none => some (s.put c .writeInflight)
  | .recvFast ch next =>
      match received key s ch next with
      | .value result => some (s.put c (.returned result))
      | .lagged | .closed => some (s.put c .writeInflight)
      | .pending => none
  | .writeInflight =>
      if s.writer ≠ none then none
      else match s.inflight (key c) with
        | some ch => some ({ s with writer := some c }.put c
            (.recvSlow ch (subscribe (s.sent ch))))
        | none => some (lead key s c)
  | .recvSlow ch next =>
      match received key s ch next with
      | .value result => some ({ s with writer := none }.put c (.returned result))
      | .lagged | .closed => some (lead key s c)
      | .pending => none
  | .cleanUp result =>
      if s.writer ≠ none then none
      else some ({ s with inflight := Function.update s.inflight (key c) none }.put c
        (.returned result))
  | .idle | .running | .returned _ | .dropped => none

def State.next (s : State R) : Label R → Option (State R)
  | .begin c => match s.calls c with
      | .idle => some (s.put c .readInflight)
      | _ => none
  | .step c => advance key s c
  | .finish c result => match s.calls c with
      | .running => some ({ s with
          sent := Function.update s.sent c (s.sent c ++ [result]) }.put c (.cleanUp result))
      | _ => none
  | .abort c =>
      if (s.calls c).live then
        some ({ s with writer := if s.writer = some c then none else s.writer }.put c .dropped)
      else none

def system (R : Type) (key : CallId → String) : TransitionSystem (State R) (Label R) where
  init := ⟨fun _ => none, none, fun _ => [], fun _ => .idle⟩
  step := State.next key

inductive Move (s : State R) : Label R → State R → Prop
  | begin {c : CallId} (hc : s.calls c = .idle) : Move s (.begin c) (s.put c .readInflight)
  | miss {c : CallId} (hc : s.calls c = .readInflight) (hw : s.writer = none)
      (hk : s.inflight (key c) = none) : Move s (.step c) (s.put c .writeInflight)
  | hit {c ch : CallId} (hc : s.calls c = .readInflight) (hw : s.writer = none)
      (hk : s.inflight (key c) = some ch) :
      Move s (.step c) (s.put c (.recvFast ch (subscribe (s.sent ch))))
  | served {c ch : CallId} {next : ℕ} {result : R} (hc : s.calls c = .recvFast ch next)
      (hr : received key s ch next = .value result) :
      Move s (.step c) (s.put c (.returned result))
  | failed {c ch : CallId} {next : ℕ} (hc : s.calls c = .recvFast ch next)
      (hr : received key s ch next = .lagged ∨ received key s ch next = .closed) :
      Move s (.step c) (s.put c .writeInflight)
  | lead {c : CallId} (hc : s.calls c = .writeInflight) (hw : s.writer = none)
      (hk : s.inflight (key c) = none) : Move s (.step c) (lead key s c)
  | park {c ch : CallId} (hc : s.calls c = .writeInflight) (hw : s.writer = none)
      (hk : s.inflight (key c) = some ch) :
      Move s (.step c) ({ s with writer := some c }.put c (.recvSlow ch (subscribe (s.sent ch))))
  | servedSlow {c ch : CallId} {next : ℕ} {result : R} (hc : s.calls c = .recvSlow ch next)
      (hr : received key s ch next = .value result) :
      Move s (.step c) ({ s with writer := none }.put c (.returned result))
  | failedSlow {c ch : CallId} {next : ℕ} (hc : s.calls c = .recvSlow ch next)
      (hr : received key s ch next = .lagged ∨ received key s ch next = .closed) :
      Move s (.step c) (SingleFlight.lead key s c)
  | remove {c : CallId} {result : R} (hc : s.calls c = .cleanUp result) (hw : s.writer = none) :
      Move s (.step c) ({ s with inflight := Function.update s.inflight (key c) none }.put c
        (.returned result))
  | finish {c : CallId} {result : R} (hc : s.calls c = .running) :
      Move s (.finish c result) ({ s with
        sent := Function.update s.sent c (s.sent c ++ [result]) }.put c (.cleanUp result))
  | abort {c : CallId} (hc : (s.calls c).live) : Move s (.abort c)
      ({ s with writer := if s.writer = some c then none else s.writer }.put c .dropped)

variable {key}

theorem advance_move {s s' : State R} {c : CallId} (h : advance key s c = some s') :
    Move key s (.step c) s' := by
  revert h
  fun_cases advance key s c <;> intro h <;> cases h
  · exact .hit ‹_› (not_not.1 ‹_›) ‹_›
  · exact .miss ‹_› (not_not.1 ‹_›) ‹_›
  · exact .served ‹_› ‹_›
  · exact .failed ‹_› (.inl ‹_›)
  · exact .failed ‹_› (.inr ‹_›)
  · exact .park ‹_› (not_not.1 ‹_›) ‹_›
  · exact .lead ‹_› (not_not.1 ‹_›) ‹_›
  · exact .servedSlow ‹_› ‹_›
  · exact .failedSlow ‹_› (.inl ‹_›)
  · exact .failedSlow ‹_› (.inr ‹_›)
  · exact .remove ‹_› (not_not.1 ‹_›)

theorem next_move {s s' : State R} {a : Label R} (h : (system R key).step s a = some s') :
    Move key s a s' := by
  cases a with
  | begin c =>
      change (match s.calls c with
        | .idle => some (s.put c .readInflight)
        | _ => none) = some s' at h
      split at h
      · cases h
        exact .begin ‹_›
      · cases h
  | step c => exact advance_move h
  | finish c result =>
      change (match s.calls c with
        | .running => some ({ s with
            sent := Function.update s.sent c (s.sent c ++ [result]) }.put c (.cleanUp result))
        | _ => none) = some s' at h
      split at h
      · cases h
        exact .finish ‹_›
      · cases h
  | abort c =>
      change (if (s.calls c).live then some ({ s with
        writer := if s.writer = some c then none else s.writer }.put c .dropped)
        else none) = some s' at h
      by_cases hc : (s.calls c).live
      · rw [if_pos hc] at h
        cases h
        exact .abort hc
      · rw [if_neg hc] at h
        cases h

/-- A step leaves the other calls alone, and the values on their channels. -/
theorem Move.other {s s' : State R} {a : Label R} (h : Move key s a s') {d : CallId}
    (hd : d ≠ a.caller) : s'.calls d = s.calls d ∧ s'.sent d = s.sent d := by
  cases h
  all_goals first
    | exact ⟨State.put_calls_of_ne _ _ hd, Function.update_of_ne hd ..⟩
    | exact ⟨State.put_calls_of_ne _ _ hd, rfl⟩

theorem Move.caller_ne_dropped {s s' : State R} {a : Label R} (h : Move key s a s') :
    s.calls a.caller ≠ .dropped := by
  intro hd
  cases h
  all_goals simp_all [Label.caller, Pc.live]

/-- A property of a call and the values on its channel holds of all calls after a step, if the step
establishes it for the call that makes the step. -/
theorem Move.forall_calls {p : CallId → Pc R → List R → Prop} {s s' : State R} {a : Label R}
    (h : Move key s a s') (hs : ∀ d, p d (s.calls d) (s.sent d))
    (ha : p a.caller (s'.calls a.caller) (s'.sent a.caller)) (d : CallId) :
    p d (s'.calls d) (s'.sent d) := by
  by_cases hd : d = a.caller
  · rwa [hd]
  · rw [(h.other hd).1, (h.other hd).2]
    exact hs d

/-- A call that no label of a run names stays as it was. -/
theorem exec_calls_of_ne {s s' : State R} {as : List (Label R)} {d : CallId}
    (h : (system R key).exec s as = some s') (hd : d ∉ as.map Label.caller) :
    s'.calls d = s.calls d := by
  refine (system R key).exec_frame (f := State.calls) (l := fun a => some a.caller) ?_ h ?_
  · intro t a t' e ht he
    exact ((next_move ht).other (fun hne => he (congrArg some hne.symm))).1
  · intro a ha he
    exact hd (List.mem_map.2 ⟨a, ha, Option.some.inj he⟩)

end Rszero.SingleFlight
