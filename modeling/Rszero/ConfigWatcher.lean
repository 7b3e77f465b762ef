import Mathlib.Data.List.Infix
import Rszero.TransitionSystem

/-!
# The configuration watcher

The task of `ConfigWatcher::start` once the watch is established, with the writes of the file, the
events of `notify` and the registrations of callbacks that come between its steps. The watcher holds
a receiver, so a send publishes. `K` is the type of the configurations and `C` that of the
callbacks.
-/

namespace Rszero.ConfigWatcher

/-- `notify::EventKind` -/
inductive EventKind
  | any
  | access
  | create
  | modify
  | remove
  | other
  deriving DecidableEq

namespace EventKind

def isModify (kind : EventKind) : Bool := kind = .modify

def isCreate (kind : EventKind) : Bool := kind = .create

end EventKind

/-- Whether the closure tries to send for what `notify` gives it, which is nothing for an error. -/
def relevant : Option EventKind → Bool
  | some kind => kind.isModify || kind.isCreate
  | none => false

/-- What `notify` gives when the file has been written. -/
def reportsWrite : Option EventKind → Bool
  | some .modify | some .create => true
  | _ => false

theorem relevant_of_reportsWrite {event : Option EventKind} (h : reportsWrite event) :
    relevant event := by
  unfold reportsWrite at h
  split at h
  · rfl
  · rfl
  · cases h

/-- Where the task is: in its `select`, in `load_config`, before the send, before the lock of the
callbacks, or with the callbacks that are still to be called under the lock. -/
inductive Phase (K C : Type)
  | idle
  | loading
  | loaded (config : K)
  | locking (config : K)
  | calling (config : K) (rest : List C)

/-- `unheard` is whether the file has been written since the last event that reports a write, and
`sending` the number of its calls that are still to try. -/
structure State (K C : Type) where
  unheard : Bool
  sending : ℕ
  slot : Bool
  pending : Bool
  phase : Phase K C
  published : K
  callbacks : List C

inductive Label (K C : Type)
  | write
  | event (kind : Option EventKind)
  | trySend
  | recv
  | timer
  | load (result : Option K)
  | task
  | register (callback : C)

variable {K C : Type}

def init (initial : K) : State K C := ⟨false, 0, false, false, .idle, initial, []⟩

/-- The next step of a reload after `load_config`. -/
def taskStep (s : State K C) : Option (State K C) :=
  match s.phase with
  | .loaded config => some { s with published := config, phase := .locking config }
  | .locking config => some { s with phase := .calling config s.callbacks }
  | .calling config (_ :: rest) => some { s with phase := .calling config rest }
  | .calling _ [] => some { s with phase := .idle }
  | .idle | .loading => none

/-- `on_change` gets its lock when no reload has it. -/
def register (s : State K C) (callback : C) : Option (State K C) :=
  match s.phase with
  | .calling .. => none
  | _ => some { s with callbacks := s.callbacks ++ [callback] }

def step (s : State K C) : Label K C → Option (State K C)
  | .write => some { s with unheard := true }
  | .event kind =>
      some { s with
        unheard := s.unheard && !reportsWrite kind
        sending := if relevant kind then s.sending + 1 else s.sending }
  | .trySend =>
      if 0 < s.sending then some { s with sending := s.sending - 1, slot := true } else none
  | .recv =>
      match s.phase, s.slot with
      | .idle, true => some { s with slot := false, pending := true }
      | _, _ => none
  | .timer =>
      match s.phase, s.pending with
      | .idle, true => some { s with pending := false, phase := .loading }
      | _, _ => none
  | .load result =>
      match s.phase, result with
      | .loading, some config => some { s with phase := .loaded config }
      | .loading, none => some { s with phase := .idle }
      | _, _ => none
  | .task => taskStep s
  | .register callback => register s callback

def system (initial : K) : TransitionSystem (State K C) (Label K C) where
  init := init initial
  step := step

def State.get (s : State K C) : K := s.published

/-- A load begins with the callbacks that are registered by then. -/
inductive Entry (K C : Type)
  | written
  | began (registered : List C)
  | loaded (result : Option K)
  | published (config : K)
  | called (callback : C) (config : K)

def taskEntry (s : State K C) : List (Entry K C) :=
  match s.phase with
  | .loaded config => [.published config]
  | .calling config (callback :: _) => [.called callback config]
  | _ => []

def note (log : List (Entry K C)) (s : State K C) (a : Label K C) (_ : State K C) :
    List (Entry K C) :=
  match a with
  | .write => log ++ [.written]
  | .timer => log ++ [.began s.callbacks]
  | .load result => log ++ [.loaded result]
  | .task => log ++ taskEntry s
  | _ => log

def watching (initial : K) : TransitionSystem (State K C × List (Entry K C)) (Label K C) :=
  (system initial).observe [] note

/-- Every write has had its event, nothing waits, and no reload is in progress. -/
structure Quiet (s : State K C) : Prop where
  heard : s.unheard = false
  sent : s.sending = 0
  empty : s.slot = false
  settled : s.pending = false
  idle : s.phase = .idle

/-- After every write a load has begun. -/
def Followed (log : List (Entry K C)) : Prop :=
  ∀ before after, log = before ++ .written :: after → ∃ registered, .began registered ∈ after

structure Attempt (K C : Type) where
  registered : List C
  result : Option K
  callbacks : List C

/-- A failed attempt does nothing more; any other publishes and then calls each callback. -/
def Attempt.entries (attempt : Attempt K C) : List (Entry K C) :=
  .began attempt.registered :: .loaded attempt.result ::
    match attempt.result with
    | none => []
    | some config => .published config :: attempt.callbacks.map (.called · config)

def Entry.ofTask : Entry K C → Bool
  | .written => false
  | _ => true

def Entry.config : Entry K C → Option K
  | .published config => some config
  | _ => none

def lastPublished (initial : K) (log : List (Entry K C)) : K :=
  (log.filterMap Entry.config).getLastD initial

section Followed

variable {log es before after : List (Entry K C)} {e : Entry K C}

theorem exists_split (h : log ++ es = before ++ e :: after) (he : e ∉ es) :
    ∃ mid, log = before ++ e :: mid ∧ after = mid ++ es := by
  rcases List.append_eq_append_iff.1 h with ⟨mid, -, hes⟩ | ⟨mid, hlog, hafter⟩
  · exact absurd (by simp [hes]) he
  · cases mid with
    | nil =>
        rw [List.nil_append] at hafter
        exact absurd (by simp [← hafter]) he
    | cons e' mid =>
        obtain ⟨rfl, rfl⟩ := List.cons.inj hafter
        exact ⟨mid, hlog, rfl⟩

theorem followed_nil : Followed ([] : List (Entry K C)) :=
  fun before _ h => absurd h.symm (List.append_ne_nil_of_right_ne_nil before (List.cons_ne_nil _ _))

theorem followed_began (log : List (Entry K C)) (registered : List C) :
    Followed (log ++ [.began registered]) := by
  intro before after h
  obtain ⟨mid, -, rfl⟩ := exists_split h (by simp)
  exact ⟨registered, by simp⟩

theorem Followed.append (h : Followed log) (hes : .written ∉ es) : Followed (log ++ es) := by
  intro before after hsplit
  obtain ⟨mid, hlog, rfl⟩ := exists_split hsplit hes
  obtain ⟨registered, hmem⟩ := h before mid hlog
  exact ⟨registered, List.mem_append_left _ hmem⟩

end Followed

/-- The last write is still to be heard of, or there is a trace of it. -/
def Awaits (s : State K C) : Prop := s.unheard ∨ 0 < s.sending ∨ s.slot ∨ s.pending

/-- There is a trace of the last write, or a load has begun since. -/
def Covered (x : State K C × List (Entry K C)) : Prop := Awaits x.1 ∨ Followed x.2

variable {initial : K} {s s' : State K C} {x y : State K C × List (Entry K C)} {a : Label K C}

inductive Move (s : State K C) : Label K C → State K C → Prop
  | write : Move s .write { s with unheard := true }
  | event {kind : Option EventKind} (h : relevant kind) (unheard : Bool) :
      Move s (.event kind) { s with unheard := unheard, sending := s.sending + 1 }
  | otherEvent {kind : Option EventKind} : Move s (.event kind) s
  | trySend (h : 0 < s.sending) :
      Move s .trySend { s with sending := s.sending - 1, slot := true }
  | recv (hphase : s.phase = .idle) (h : s.slot) :
      Move s .recv { s with slot := false, pending := true }
  | timer (hphase : s.phase = .idle) (h : s.pending) :
      Move s .timer { s with pending := false, phase := .loading }
  | loadOk {config : K} (hphase : s.phase = .loading) :
      Move s (.load (some config)) { s with phase := .loaded config }
  | loadErr (hphase : s.phase = .loading) : Move s (.load none) { s with phase := .idle }
  | publish {config : K} (hphase : s.phase = .loaded config) :
      Move s .task { s with published := config, phase := .locking config }
  | lock {config : K} (hphase : s.phase = .locking config) :
      Move s .task { s with phase := .calling config s.callbacks }
  | call {config : K} {callback : C} {rest : List C}
      (hphase : s.phase = .calling config (callback :: rest)) :
      Move s .task { s with phase := .calling config rest }
  | unlock {config : K} (hphase : s.phase = .calling config []) :
      Move s .task { s with phase := .idle }
  | register {callback : C} (hphase : ∀ config rest, s.phase ≠ .calling config rest) :
      Move s (.register callback) { s with callbacks := s.callbacks ++ [callback] }

theorem step_move (h : step s a = some s') : Move s a s' := by
  cases a with
  | write =>
      obtain rfl := Option.some.inj h
      exact .write
  | event kind =>
      obtain rfl := Option.some.inj h
      by_cases hrelevant : relevant kind
      · rw [if_pos hrelevant]
        exact .event hrelevant _
      · have hreports : reportsWrite kind = false :=
          Bool.eq_false_iff.2 (fun hreports => hrelevant (relevant_of_reportsWrite hreports))
        rw [if_neg hrelevant, hreports, Bool.not_false, Bool.and_true]
        exact .otherEvent
  | trySend =>
      rw [step] at h
      by_cases hsending : 0 < s.sending
      · rw [if_pos hsending] at h
        obtain rfl := Option.some.inj h
        exact .trySend hsending
      · rw [if_neg hsending] at h
        cases h
  | recv =>
      rw [step] at h
      split at h
      case h_1 hphase hslot =>
        obtain rfl := Option.some.inj h
        exact .recv hphase hslot
      case h_2 => cases h
  | timer =>
      rw [step] at h
      split at h
      case h_1 hphase hpending =>
        obtain rfl := Option.some.inj h
        exact .timer hphase hpending
      case h_2 => cases h
  | load result =>
      cases hphase : s.phase with
      | loading =>
          cases result with
          | some config =>
              simp only [step, hphase] at h
              obtain rfl := Option.some.inj h
              exact .loadOk hphase
          | none =>
              simp only [step, hphase] at h
              obtain rfl := Option.some.inj h
              exact .loadErr hphase
      | _ => simp [step, hphase] at h
  | task =>
      rw [step, taskStep] at h
      split at h
      case h_1 hphase =>
        obtain rfl := Option.some.inj h
        exact .publish hphase
      case h_2 hphase =>
        obtain rfl := Option.some.inj h
        exact .lock hphase
      case h_3 hphase =>
        obtain rfl := Option.some.inj h
        exact .call hphase
      case h_4 hphase =>
        obtain rfl := Option.some.inj h
        exact .unlock hphase
      case h_5 => cases h
      case h_6 => cases h
  | register callback =>
      rw [step, ConfigWatcher.register] at h
      split at h
      case h_1 => cases h
      case h_2 hphase =>
        obtain rfl := Option.some.inj h
        exact .register (fun config rest hcalling => hphase config rest hcalling)

theorem written_notMem_taskEntry (s : State K C) : .written ∉ taskEntry s := by
  unfold taskEntry
  split <;> simp

/-- The trace of a write goes from its event to the slot, to the flag and to a load. -/
theorem Covered.step (h : Covered x) (hstep : (watching initial).step x a = some y) :
    Covered y := by
  obtain ⟨s', hs, rfl⟩ := TransitionSystem.exists_of_observe_step hstep
  rcases x with ⟨s, log⟩
  cases step_move hs with
  | write => exact .inl (.inl rfl)
  | event => exact .inl (.inr (.inl (Nat.succ_pos _)))
  | otherEvent => exact h
  | trySend => exact .inl (.inr (.inr (.inl rfl)))
  | recv => exact .inl (.inr (.inr (.inr rfl)))
  | timer => exact .inr (followed_began log s.callbacks)
  | loadOk => exact h.imp_right (·.append (by simp))
  | loadErr => exact h.imp_right (·.append (by simp))
  | publish => exact h.imp_right (·.append (written_notMem_taskEntry s))
  | lock => exact h.imp_right (·.append (written_notMem_taskEntry s))
  | call => exact h.imp_right (·.append (written_notMem_taskEntry s))
  | unlock => exact h.imp_right (·.append (written_notMem_taskEntry s))
  | register => exact h

theorem Quiet.not_awaits (h : Quiet s) : ¬ Awaits s := by
  simp [Awaits, h.heard, h.sent, h.empty, h.settled]

/-- What the attempt at hand has done so far. -/
def Underway (callbacks : List C) (entries : List (Entry K C)) : Phase K C → Prop
  | .idle => entries = []
  | .loading => ∃ registered, registered <+: callbacks ∧ entries = [.began registered]
  | .loaded config => ∃ registered, registered <+: callbacks ∧
      entries = [.began registered, .loaded (some config)]
  | .locking config => ∃ registered, registered <+: callbacks ∧
      entries = [.began registered, .loaded (some config), .published config]
  | .calling config rest => ∃ registered done, registered <+: callbacks ∧
      callbacks = done ++ rest ∧ entries = .began registered :: .loaded (some config) ::
        .published config :: done.map (.called · config)

/-- The callbacks of an attempt are those registered when it began and perhaps more. -/
def Attempt.Fits (callbacks : List C) (attempt : Attempt K C) : Prop :=
  attempt.registered <+: attempt.callbacks ∧ attempt.callbacks <+: callbacks

structure Logged (initial : K) (x : State K C × List (Entry K C)) : Prop where
  attempts : ∃ (attempts : List (Attempt K C)) (entries : List (Entry K C)),
    x.2.filter Entry.ofTask = attempts.flatMap Attempt.entries ++ entries ∧
      Underway x.1.callbacks entries x.1.phase ∧ ∀ attempt ∈ attempts, attempt.Fits x.1.callbacks
  published : x.1.published = lastPublished initial x.2

section Logged

variable {log es : List (Entry K C)}

theorem logged_init (initial : K) : Logged initial ((init initial : State K C), []) where
  attempts := ⟨[], [], rfl, rfl, fun _ h => absurd h List.not_mem_nil⟩
  published := rfl

theorem lastPublished_append (hes : es.filterMap Entry.config = []) :
    lastPublished initial (log ++ es) = lastPublished initial log := by
  rw [lastPublished, lastPublished, List.filterMap_append, hes, List.append_nil]

theorem lastPublished_published (log : List (Entry K C)) (config : K) :
    lastPublished initial (log ++ [.published config]) = config := by
  simp [lastPublished, Entry.config]

/-- The task goes on with the attempt at hand. -/
theorem Logged.goOn (h : Logged initial (s, log)) (s' : State K C)
    (es : List (Entry K C)) (hcallbacks : s'.callbacks = s.callbacks)
    (hes : es.filter Entry.ofTask = es)
    (hunderway : ∀ entries, Underway s.callbacks entries s.phase →
      Underway s.callbacks (entries ++ es) s'.phase)
    (hpublished : s'.published = lastPublished initial (log ++ es)) :
    Logged initial (s', log ++ es) where
  attempts := by
    obtain ⟨attempts, entries, hlog, hentries, hfits⟩ := h.attempts
    refine ⟨attempts, entries ++ es, ?_, ?_, ?_⟩
    · rw [List.filter_append, hes, hlog, List.append_assoc]
    · exact hcallbacks ▸ hunderway entries hentries
    · exact hcallbacks ▸ hfits
  published := hpublished

/-- The attempt at hand ends as `attempt`. -/
theorem Logged.finish (h : Logged initial (s, log)) (s' : State K C)
    (es : List (Entry K C)) (hcallbacks : s'.callbacks = s.callbacks)
    (hes : es.filter Entry.ofTask = es)
    (hunderway : ∀ entries, Underway s.callbacks entries s.phase →
      ∃ attempt : Attempt K C, attempt.entries = entries ++ es ∧ attempt.Fits s.callbacks)
    (hphase : s'.phase = .idle) (hpublished : s'.published = lastPublished initial (log ++ es)) :
    Logged initial (s', log ++ es) where
  attempts := by
    obtain ⟨attempts, entries, hlog, hentries, hfits⟩ := h.attempts
    obtain ⟨attempt, hattempt, hfit⟩ := hunderway entries hentries
    refine ⟨attempts ++ [attempt], [], ?_, ?_, ?_⟩
    · rw [List.filter_append, hes, hlog]
      simp [hattempt]
    · exact hphase ▸ rfl
    · intro attempt' hmem
      rw [hcallbacks]
      rcases List.mem_append.1 hmem with hmem | hmem
      · exact hfits attempt' hmem
      · rwa [List.mem_singleton.1 hmem]
  published := hpublished

/-- A callback that comes while none are called is not one of the attempt's callbacks yet. -/
theorem underway_register {phase : Phase K C} {callbacks : List C}
    (hphase : ∀ config rest, phase ≠ .calling config rest) (callback : C)
    (h : Underway callbacks es phase) : Underway (callbacks ++ [callback]) es phase := by
  have hmore := List.prefix_append callbacks [callback]
  cases phase with
  | idle => exact h
  | loading => exact h.imp fun _ h => ⟨h.1.trans hmore, h.2⟩
  | loaded config => exact h.imp fun _ h => ⟨h.1.trans hmore, h.2⟩
  | locking config => exact h.imp fun _ h => ⟨h.1.trans hmore, h.2⟩
  | calling config rest => exact absurd rfl (hphase config rest)

end Logged

theorem Logged.step (h : Logged initial x) (hstep : (watching initial).step x a = some y) :
    Logged initial y := by
  obtain ⟨s', hs, rfl⟩ := TransitionSystem.exists_of_observe_step hstep
  rcases x with ⟨s, log⟩
  cases step_move hs with
  | write =>
      refine ⟨?_, h.published.trans (lastPublished_append rfl).symm⟩
      obtain ⟨attempts, entries, hlog, hrest⟩ := h.attempts
      exact ⟨attempts, entries, by simpa [note, Entry.ofTask] using hlog, hrest⟩
  | event => exact ⟨h.attempts, h.published⟩
  | otherEvent => exact h
  | trySend => exact ⟨h.attempts, h.published⟩
  | recv => exact ⟨h.attempts, h.published⟩
  | timer hphase =>
      refine h.goOn _ [.began s.callbacks] rfl rfl ?_ ?_
      · intro entries hentries
        rw [hphase] at hentries
        obtain rfl := hentries
        exact ⟨s.callbacks, List.prefix_rfl, rfl⟩
      · exact h.published.trans (lastPublished_append rfl).symm
  | @loadOk config hphase =>
      refine h.goOn _ [.loaded (some config)] rfl rfl ?_ ?_
      · intro entries hentries
        rw [hphase] at hentries
        obtain ⟨registered, hregistered, rfl⟩ := hentries
        exact ⟨registered, hregistered, rfl⟩
      · exact h.published.trans (lastPublished_append rfl).symm
  | loadErr hphase =>
      refine h.finish _ [.loaded none] rfl rfl ?_ rfl ?_
      · intro entries hentries
        rw [hphase] at hentries
        obtain ⟨registered, hregistered, rfl⟩ := hentries
        exact ⟨⟨registered, none, registered⟩, rfl, List.prefix_rfl, hregistered⟩
      · exact h.published.trans (lastPublished_append rfl).symm
  | @publish config hphase =>
      have hentry : taskEntry s = [.published config] := by rw [taskEntry, hphase]
      have hgo := h.goOn { s with published := config, phase := .locking config }
        [.published config] rfl rfl ?_ (lastPublished_published log config).symm
      · rwa [← hentry] at hgo
      · intro entries hentries
        rw [hphase] at hentries
        obtain ⟨registered, hregistered, rfl⟩ := hentries
        exact ⟨registered, hregistered, rfl⟩
  | @lock config hphase =>
      have hentry : taskEntry s = [] := by rw [taskEntry, hphase]
      have hgo := h.goOn { s with phase := .calling config s.callbacks } []
        rfl rfl ?_ (h.published.trans (lastPublished_append rfl).symm)
      · rwa [← hentry] at hgo
      · intro entries hentries
        rw [hphase] at hentries
        obtain ⟨registered, hregistered, rfl⟩ := hentries
        exact ⟨registered, [], hregistered, rfl, rfl⟩
  | @call config callback rest hphase =>
      have hentry : taskEntry s = [.called callback config] := by rw [taskEntry, hphase]
      have hgo := h.goOn { s with phase := .calling config rest }
        [.called callback config] rfl rfl ?_
        (h.published.trans (lastPublished_append rfl).symm)
      · rwa [← hentry] at hgo
      · intro entries hentries
        rw [hphase] at hentries
        obtain ⟨registered, done, hregistered, hdone, rfl⟩ := hentries
        exact ⟨registered, done ++ [callback], hregistered, by simp [hdone], by simp⟩
  | @unlock config hphase =>
      have hentry : taskEntry s = [] := by rw [taskEntry, hphase]
      have hfinish := h.finish { s with phase := .idle } [] rfl rfl ?_ rfl
        (h.published.trans (lastPublished_append rfl).symm)
      · rwa [← hentry] at hfinish
      · intro entries hentries
        rw [hphase] at hentries
        obtain ⟨registered, done, hregistered, hdone, rfl⟩ := hentries
        rw [List.append_nil] at hdone
        refine ⟨⟨registered, some config, done⟩, ?_, hdone ▸ hregistered, hdone ▸ List.prefix_rfl⟩
        rw [List.append_nil]
        rfl
  | @register callback hphase =>
      refine ⟨?_, h.published⟩
      obtain ⟨attempts, entries, hlog, hentries, hfits⟩ := h.attempts
      exact ⟨attempts, entries, hlog, underway_register hphase callback hentries,
        fun attempt hmem => (hfits attempt hmem).imp_right (·.trans (List.prefix_append ..))⟩

/-- What has been done of an attempt can still be completed. -/
theorem exists_attempt {phase : Phase K C} {callbacks : List C} {es : List (Entry K C)}
    (h : Underway callbacks es phase) : phase = .idle ∧ es = [] ∨
      phase ≠ .idle ∧ ∃ attempt : Attempt K C, es <+: attempt.entries ∧ attempt.Fits callbacks := by
  cases phase with
  | idle => exact .inl ⟨rfl, h⟩
  | loading =>
      obtain ⟨registered, hregistered, rfl⟩ := h
      exact .inr ⟨nofun, ⟨registered, none, callbacks⟩, ⟨[.loaded none], rfl⟩, hregistered,
        List.prefix_rfl⟩
  | loaded config =>
      obtain ⟨registered, hregistered, rfl⟩ := h
      exact .inr ⟨nofun, ⟨registered, some config, callbacks⟩, ⟨_, rfl⟩, hregistered,
        List.prefix_rfl⟩
  | locking config =>
      obtain ⟨registered, hregistered, rfl⟩ := h
      exact .inr ⟨nofun, ⟨registered, some config, callbacks⟩, ⟨_, rfl⟩, hregistered,
        List.prefix_rfl⟩
  | calling config rest =>
      obtain ⟨registered, done, hregistered, rfl, rfl⟩ := h
      refine .inr ⟨nofun, ⟨registered, some config, done ++ rest⟩,
        ⟨rest.map (.called · config), ?_⟩, hregistered, List.prefix_rfl⟩
      simp [Attempt.entries]

def Label.callback : Label K C → Option C
  | .register callback => some callback
  | _ => none

theorem callbacks_step (h : step s a = some s') :
    s'.callbacks = s.callbacks ++ a.callback.toList := by
  cases step_move h <;> first | rfl | exact (List.append_nil _).symm

/-- The callbacks are those of the registrations, in their order. -/
theorem callbacks_exec {run : List (Label K C)} (h : (watching initial).exec x run = some y) :
    y.1.callbacks = x.1.callbacks ++ run.filterMap Label.callback := by
  induction run generalizing x with
  | nil =>
      obtain rfl := Option.some.inj h
      exact (List.append_nil _).symm
  | cons a run ih =>
      obtain ⟨x', hstep, hrun⟩ := (watching initial).exec_cons_eq_some.1 h
      have hfirst := callbacks_step (TransitionSystem.observe_step_eq_some.1 hstep).1
      rw [ih hrun, hfirst, List.append_assoc]
      cases hcallback : a.callback with
      | none => rw [List.filterMap_cons_none hcallback, Option.toList_none, List.nil_append]
      | some callback =>
          rw [List.filterMap_cons_some hcallback, Option.toList_some, List.singleton_append]

/-- However writes, events, sends, receipts, the timer, loads and registrations interleave: when
everything is quiet a load has begun after every write, and the task has made one attempt after
another, each of which, if its load succeeds, publishes and then calls once each callback that was
registered by then. -/
theorem reload_loses_nothing (initial : K) (run : List (Label K C))
    (x : State K C × List (Entry K C))
    (hexec : (watching initial).exec (watching initial).init run = some x) :
    (Quiet x.1 → Followed x.2) ∧ x.1.get = lastPublished initial x.2 ∧
      ∃ attempts : List (Attempt K C),
        x.2.filter Entry.ofTask <+: attempts.flatMap Attempt.entries ∧
        (x.1.phase = .idle → x.2.filter Entry.ofTask = attempts.flatMap Attempt.entries) ∧
        ∀ attempt ∈ attempts, attempt.registered <+: attempt.callbacks ∧
          attempt.callbacks <+: run.filterMap Label.callback := by
  have hcallbacks : x.1.callbacks = run.filterMap Label.callback :=
    (callbacks_exec hexec).trans (List.nil_append _)
  rw [← hcallbacks]
  have hcovered : Covered x := (watching initial).exec_invariant
    (fun _ _ _ h hstep => Covered.step h hstep) (.inr followed_nil) hexec
  have hlogged : Logged initial x := (watching initial).exec_invariant
    (fun _ _ _ h hstep => h.step hstep) (logged_init initial) hexec
  refine ⟨fun hquiet => hcovered.resolve_left hquiet.not_awaits, hlogged.published, ?_⟩
  obtain ⟨attempts, entries, hlog, hentries, hfits⟩ := hlogged.attempts
  rcases exists_attempt hentries with ⟨-, rfl⟩ | ⟨hphase, attempt, ⟨rest, hrest⟩, hfit⟩
  · rw [List.append_nil] at hlog
    exact ⟨attempts, hlog ▸ List.prefix_rfl, fun _ => hlog, hfits⟩
  · refine ⟨attempts ++ [attempt], ⟨rest, ?_⟩, fun hidle => absurd hidle hphase, ?_⟩
    · rw [hlog]
      simp [hrest]
    · intro attempt' hmem
      rcases List.mem_append.1 hmem with hmem | hmem
      · exact hfits attempt' hmem
      · rwa [List.mem_singleton.1 hmem]

def twoWrites : List (Label ℕ ℕ) :=
  [.register 7, .write, .event (some .modify), .trySend, .recv, .timer, .write,
    .event (some .modify), .load none, .trySend, .recv, .timer, .load (some 2), .task, .task, .task,
    .task]

theorem reload_loses_nothing_twoWrites :
    ∃ x, (watching 0).exec (watching 0).init twoWrites = some x ∧ Quiet x.1 ∧ Followed x.2 := by
  refine ⟨_, rfl, ⟨rfl, rfl, rfl, rfl, rfl⟩, ?_⟩
  exact (reload_loses_nothing 0 twoWrites _ rfl).1 ⟨rfl, rfl, rfl, rfl, rfl⟩

def Label.internal : Label K C → Bool
  | .trySend | .recv | .timer | .load _ | .task => true
  | _ => false

/-- As long as not everything is quiet and no event is owed, the watcher can go on. -/
theorem exists_step_of_not_quiet (hheard : s.unheard = false) (hquiet : ¬ Quiet s) :
    ∃ (a : Label K C) (s' : State K C), a.internal ∧ step s a = some s' := by
  by_cases hsending : 0 < s.sending
  · exact ⟨.trySend, _, rfl, if_pos hsending⟩
  cases hphase : s.phase with
  | idle =>
      cases hslot : s.slot with
      | true => exact ⟨.recv, _, rfl, by simp only [step, hphase, hslot]; rfl⟩
      | false =>
          cases hpending : s.pending with
          | true => exact ⟨.timer, _, rfl, by simp only [step, hphase, hpending]; rfl⟩
          | false =>
              exact absurd ⟨hheard, Nat.eq_zero_of_not_pos hsending, hslot, hpending, hphase⟩ hquiet
  | loading => exact ⟨.load none, _, rfl, by simp only [step, hphase]; rfl⟩
  | loaded config => exact ⟨.task, _, rfl, by simp only [step, taskStep, hphase]; rfl⟩
  | locking config => exact ⟨.task, _, rfl, by simp only [step, taskStep, hphase]; rfl⟩
  | calling config rest =>
      cases rest with
      | nil => exact ⟨.task, _, rfl, by simp only [step, taskStep, hphase]; rfl⟩
      | cons callback rest => exact ⟨.task, _, rfl, by simp only [step, taskStep, hphase]; rfl⟩

end Rszero.ConfigWatcher
