import Rszero.SingleFlightRegistry

/-!
# One execution at a time, and fresh results

The history variable is the log of a run, its newest event first. A closure starts when its call
puts itself in the map, so two closures of one key never overlap. A receiver sees only what is sent
after it subscribed, so the result it hands on belongs to an execution that ended after its own call
began.
-/

namespace Rszero.SingleFlight

open BroadcastChannel

variable {R : Type} {key : CallId → String}

inductive Event (R : Type)
  | began (c : CallId)
  | started (c : CallId)
  | ended (c : CallId) (result : R)
  deriving DecidableEq

def noteEvent (log : List (Event R)) (s : State R) (a : Label R) (s' : State R) :
    List (Event R) :=
  match a with
  | .begin c => .began c :: log
  | .step c => if !(s.calls c).executing && (s'.calls c).executing then .started c :: log else log
  | .finish c result => .ended c result :: log
  | .abort _ => log

def withLog (R : Type) (key : CallId → String) :
    TransitionSystem (State R × List (Event R)) (Label R) :=
  (system R key).observe [] noteEvent

def EndedSince (log : List (Event R)) (c d : CallId) (result : R) : Prop :=
  ∃ later earlier, log = later ++ .ended d result :: earlier ∧ .began c ∈ earlier

/-- The result belongs to an execution for the key of the call that ended after the call began. -/
def Fresh (key : CallId → String) (log : List (Event R)) (c : CallId) (result : R) : Prop :=
  ∃ d, key d = key c ∧ EndedSince log c d result

theorem EndedSince.mono {log log' : List (Event R)} {c d : CallId} {result : R}
    (h : EndedSince log c d result) (hlog : log <:+ log') : EndedSince log' c d result := by
  obtain ⟨later, earlier, rfl, hc⟩ := h
  obtain ⟨news, rfl⟩ := hlog
  exact ⟨news ++ later, earlier, (List.append_assoc ..).symm, hc⟩

theorem noteEvent_step (log : List (Event R)) (s s' : State R) (c : CallId) :
    noteEvent log s (.step c) s' =
      if !(s.calls c).executing && (s'.calls c).executing then .started c :: log else log := rfl

/-- The log only grows. -/
theorem noteEvent_suffix (log : List (Event R)) (s : State R) (a : Label R) (s' : State R) :
    log <:+ noteEvent log s a s' := by
  cases a with
  | begin c => exact List.suffix_cons ..
  | step c =>
      rw [noteEvent_step]
      split_ifs
      · exact List.suffix_cons ..
      · exact List.suffix_rfl
  | finish c result => exact List.suffix_cons ..
  | abort c => exact List.suffix_rfl

/-- A receiver of the call `c` will find only values that were sent after `c` began. -/
def FreshReceiver (key : CallId → String) (log : List (Event R)) (sent : CallId → List R)
    (c ch : CallId) (next : ℕ) : Prop :=
  key ch = key c ∧ ∀ result, (sent ch)[next]? = some result → EndedSince log c ch result

def Logged (key : CallId → String) (log : List (Event R)) (sent : CallId → List R) (c : CallId) :
    Pc R → Prop
  | .idle | .dropped => True
  | .readInflight | .writeInflight => .began c ∈ log
  | .recvFast ch next | .recvSlow ch next =>
      .began c ∈ log ∧ FreshReceiver key log sent c ch next
  | .running | .cleanUp _ => .started c ∈ log
  | .returned result => .started c ∈ log ∨ Fresh key log c result

theorem FreshReceiver.mono {log log' : List (Event R)} {sent : CallId → List R} {c ch : CallId}
    {next : ℕ} (h : FreshReceiver key log sent c ch next) (hlog : log <:+ log') :
    FreshReceiver key log' sent c ch next :=
  ⟨h.1, fun result hr => (h.2 result hr).mono hlog⟩

/-- The value that a closure leaves on its channel is fresh for every call that has begun. -/
theorem FreshReceiver.send {log : List (Event R)} {sent : CallId → List R} {c d ch : CallId}
    {next : ℕ} {result : R} (h : FreshReceiver key log sent c ch next) (hc : .began c ∈ log) :
    FreshReceiver key (.ended d result :: log) (Function.update sent d (sent d ++ [result])) c ch
      next := by
  have hmono := h.mono (List.suffix_cons (.ended d result) log)
  refine ⟨h.1, fun value hv => ?_⟩
  by_cases hch : ch = d
  · subst hch
    rw [Function.update_self, List.getElem?_append] at hv
    split_ifs at hv with hlt
    · exact hmono.2 value hv
    · obtain ⟨-, rfl⟩ : next - (sent ch).length = 0 ∧ result = value := by
        simpa [List.getElem?_singleton] using hv
      exact ⟨[], log, rfl, hc⟩
  · rw [Function.update_of_ne hch] at hv
    exact hmono.2 value hv

theorem freshReceiver_subscribe {log : List (Event R)} {sent : CallId → List R} {c ch : CallId}
    (h : key ch = key c) : FreshReceiver key log sent c ch (subscribe (sent ch)) := by
  refine ⟨h, fun result hr => ?_⟩
  rw [getElem?_subscribe] at hr
  cases hr

theorem FreshReceiver.served {s : State R} {log : List (Event R)} {c ch : CallId} {next : ℕ}
    {result : R} (h : FreshReceiver key log s.sent c ch next)
    (hr : received key s ch next = .value result) : Fresh key log c result :=
  ⟨ch, h.1, h.2 result (getElem?_of_recv_eq_value hr)⟩

theorem Logged.mono {log log' : List (Event R)} {sent : CallId → List R} {c : CallId} {pc : Pc R}
    (h : Logged key log sent c pc) (hlog : log <:+ log') : Logged key log' sent c pc := by
  cases pc with
  | idle => trivial
  | dropped => trivial
  | readInflight => exact hlog.subset h
  | writeInflight => exact hlog.subset h
  | recvFast ch next => exact ⟨hlog.subset h.1, h.2.mono hlog⟩
  | recvSlow ch next => exact ⟨hlog.subset h.1, h.2.mono hlog⟩
  | running => exact hlog.subset h
  | cleanUp result => exact hlog.subset h
  | returned result =>
      rcases h with h | ⟨d, hk, hd⟩
      · exact .inl (hlog.subset h)
      · exact .inr ⟨d, hk, hd.mono hlog⟩

theorem Logged.send {log : List (Event R)} {sent : CallId → List R} {c d : CallId} {pc : Pc R}
    {result : R} (h : Logged key log sent c pc) :
    Logged key (.ended d result :: log) (Function.update sent d (sent d ++ [result])) c pc := by
  have hmono := h.mono (List.suffix_cons (.ended d result) log)
  cases pc with
  | recvFast ch next => exact ⟨hmono.1, h.2.send h.1⟩
  | recvSlow ch next => exact ⟨hmono.1, h.2.send h.1⟩
  | _ => exact hmono

structure Shared (key : CallId → String) (x : State R × List (Event R)) : Prop where
  registered : Registered key x.1
  logged : ∀ c, Logged key x.2 x.1.sent c (x.1.calls c)

namespace Shared

theorem initial : Shared key (withLog R key).init where
  registered := .initial
  logged _ := trivial

/-- The values on the channels change only when a closure ends. -/
theorem other {s s' : State R} {log : List (Event R)} {a : Label R} (h : Move key s a s')
    {d : CallId} (hd : Logged key log s.sent d (s.calls d)) (hda : d ≠ a.caller) :
    Logged key (noteEvent log s a s') s'.sent d (s'.calls d) := by
  rw [(h.other hda).1]
  cases h with
  | finish hc => exact hd.send
  | _ => exact hd.mono (noteEvent_suffix ..)

theorem self {s s' : State R} {log : List (Event R)} {a : Label R} (hs : Registered key s)
    (h : Move key s a s') (hc : Logged key log s.sent a.caller (s.calls a.caller)) :
    Logged key (noteEvent log s a s') s'.sent a.caller (s'.calls a.caller) := by
  have hmono := hc.mono (noteEvent_suffix log s a s')
  cases h with
  | begin hpc => simp [Label.caller, noteEvent, Logged]
  | miss hpc =>
      simp only [Label.caller, State.put_calls_self] at hmono ⊢
      rwa [hpc] at hmono
  | hit hpc hw hk =>
      simp only [Label.caller, State.put_calls_self] at hmono ⊢
      rw [hpc] at hmono
      exact ⟨hmono, freshReceiver_subscribe (hs.entry _ _ hk)⟩
  | served hpc hr | servedSlow hpc hr =>
      simp only [Label.caller, State.put_calls_self] at hmono ⊢
      rw [hpc] at hmono
      exact .inr (hmono.2.served hr)
  | failed hpc hr =>
      simp only [Label.caller, State.put_calls_self] at hmono ⊢
      rw [hpc] at hmono
      exact hmono.1
  | lead hpc hw hk =>
      simp [Label.caller, noteEvent, SingleFlight.lead, Pc.executing, hpc, Logged]
  | park hpc hw hk =>
      simp only [Label.caller, State.put_calls_self] at hmono ⊢
      rw [hpc] at hmono
      exact ⟨hmono, freshReceiver_subscribe (hs.entry _ _ hk)⟩
  | failedSlow hpc hr => exact absurd hr (hs.recvSlow_fails hpc)
  | remove hpc =>
      simp only [Label.caller, State.put_calls_self] at hmono ⊢
      rw [hpc] at hmono
      exact .inl hmono
  | finish hpc =>
      simp only [Label.caller, State.put_calls_self] at hmono ⊢
      rw [hpc] at hmono
      exact hmono
  | abort hpc =>
      simp only [Label.caller, State.put_calls_self]
      trivial

theorem next {x y : State R × List (Event R)} {a : Label R} (hx : Shared key x)
    (h : (withLog R key).step x a = some y) : Shared key y := by
  obtain ⟨hstep, hnote⟩ := TransitionSystem.observe_step_eq_some.1 h
  have hmove := next_move hstep
  refine ⟨hx.registered.next hstep, fun c => ?_⟩
  rw [hnote]
  by_cases hc : c = a.caller
  · subst hc
    exact self hx.registered hmove (hx.logged _)
  · exact other hmove (hx.logged c) hc

end Shared

/-- In every reachable state at most one closure for a key is executing, and a call that returned
without executing its closure returned the result of an execution for its key that ended after the
call began. -/
theorem one_execution_and_fresh_results (key : CallId → String) {x : State R × List (Event R)}
    (hx : (withLog R key).Reachable (fun _ _ => True) x) :
    (∀ c d, x.1.calls c = .running → x.1.calls d = .running → key c = key d → c = d) ∧
    ∀ c result, x.1.calls c = .returned result → .started c ∉ x.2 → Fresh key x.2 c result := by
  have hinv : Shared key x := by
    refine hx.invariant .initial ?_
    intro y a z hy _ hstep
    exact hy.next hstep
  constructor
  · intro c d hc hd hk
    have hlc := hinv.registered.leader c (by rw [hc]; rfl)
    have hld := hinv.registered.leader d (by rw [hd]; rfl)
    rw [hk] at hlc
    exact Option.some.inj (hlc.symm.trans hld)
  · intro c result hc hstarted
    have hlogged := hinv.logged c
    rw [hc] at hlogged
    exact hlogged.resolve_left hstarted

def sharedRun : List (Label ℕ) :=
  [.begin 0, .step 0, .step 0, .begin 1, .step 1, .finish 0 42, .step 1]

theorem one_execution_and_fresh_results_shared :
    ∃ x, (withLog ℕ (fun _ => "key")).Reachable (fun _ _ => True) x ∧
      .started 1 ∉ x.2 ∧ x.1.calls 1 = .returned 42 ∧ Fresh (fun _ => "key") x.2 1 42 := by
  obtain ⟨x, he, hp⟩ := (withLog ℕ (fun _ => "key")).exists_exec
    (s := (withLog ℕ (fun _ => "key")).init) (r := sharedRun)
    (p := fun x => decide (.started 1 ∉ x.2) && match x.1.calls 1 with
      | .returned result => result == 42
      | _ => false) (by decide +kernel)
  have hx := TransitionSystem.Reachable.exec _ .init (fun _ _ => trivial) he
  rw [Bool.and_eq_true, decide_eq_true_eq] at hp
  obtain ⟨hstarted, hr⟩ := hp
  split at hr
  · rename_i result hc
    obtain rfl := eq_of_beq hr
    exact ⟨x, hx, hstarted, hc, (one_execution_and_fresh_results _ hx).2 1 42 hc hstarted⟩
  · cases hr

end Rszero.SingleFlight
