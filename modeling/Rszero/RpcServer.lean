import Rszero.TransitionSystem
import Mathlib.Data.Nat.Notation

/-!
# Registration of the RPC server

`start_with_service` registers with etcd and matches on the result, so the `RegistrationHandle` is
dropped before the server serves, and the keep-alive task ends. The clock counts milliseconds; it
stands still while a branch of the task's `select!` is ready, and between the registration and the
start of serving, where nothing is awaited.
-/

namespace Rszero.RpcServer

/-- `lease_grant(10, ..)` -/
def leaseTtl : ℕ := 10000

/-- `interval(Duration::from_secs(5))` -/
def keepAlivePeriod : ℕ := 5000

inductive Phase
  | granting
  | putting
  | registered
  | serving
  | stopped
  deriving DecidableEq

/-- A lease is known by the time it was renewed last, the keep-alive task by the next tick of its
interval. -/
structure State where
  now : ℕ
  phase : Phase
  lease : Option ℕ
  key : Bool
  task : Option ℕ
  handle : Bool

inductive Label
  | tick
  | granted
  | put
  | fail
  | serve
  | stop
  | renew
  | cancel

def State.alive (s : State) : Bool := s.lease.any (fun renewed => s.now < renewed + leaseTtl)

/-- Both branches of the `select!`: the interval ticks, and the handle is gone. -/
def State.taskReady (s : State) : Bool := s.task.any (fun due => due ≤ s.now || !s.handle)

def next (s : State) (a : Label) : Option State :=
  match a, s.phase with
  | .granted, .granting => some { s with lease := some s.now, phase := .putting }
  | .put, .putting =>
      if s.alive then
        some { s with key := true, task := some s.now, handle := true, phase := .registered }
      else none
  | .fail, .granting | .fail, .putting => some { s with phase := .serving }
  | .serve, .registered => some { s with handle := false, phase := .serving }
  | .stop, .registered => some { s with handle := false, phase := .stopped }
  | .stop, .serving => some { s with phase := .stopped }
  | .renew, _ => s.task.bind (fun due =>
      if due ≤ s.now then
        some { s with
          lease := if s.alive then some s.now else s.lease
          task := some (due + keepAlivePeriod) }
      else none)
  | .cancel, _ => if s.task.isSome ∧ !s.handle then some { s with task := none } else none
  | .tick, .registered => none
  | .tick, _ => if s.taskReady then none else some { s with now := s.now + 1 }
  | _, _ => none

def system : TransitionSystem State Label where
  init := ⟨0, .granting, none, false, none, false⟩
  step := next

/-- When the lease was granted and when the key was put, and whether the task's interval ticked
before the task saw that the handle is gone. -/
structure Past where
  granted : ℕ
  registered : ℕ
  ticked : Bool

def note (m : Past) (s : State) (a : Label) (_ : State) : Past :=
  match a with
  | .granted => { m with granted := s.now }
  | .put => { m with registered := s.now }
  | .renew => { m with ticked := true }
  | _ => m

def observed : TransitionSystem (State × Past) Label := system.observe ⟨0, 0, false⟩ note

def Past.lastKeepAlive (m : Past) : ℕ := if m.ticked then m.registered else m.granted

/-- From the registration until the server stops the key is there. -/
def Present (x : State × Past) : Prop := x.1.key → x.1.phase ≠ .stopped → x.1.alive

/-- A registered server serves for another millisecond only within the ten seconds after the last
keep-alive. -/
def StopsInTime (x : State × Past) (a : Label) : Prop :=
  a = .tick → x.1.key → x.1.phase ≠ .stopped → x.1.now + 1 < x.2.lastKeepAlive + leaseTtl

inductive Move (s : State) : Label → State → Prop
  | granted (hp : s.phase = .granting) :
      Move s .granted { s with lease := some s.now, phase := .putting }
  | put (hp : s.phase = .putting) (ha : s.alive) :
      Move s .put { s with key := true, task := some s.now, handle := true, phase := .registered }
  | fail (hp : s.phase = .granting ∨ s.phase = .putting) :
      Move s .fail { s with phase := .serving }
  | serve (hp : s.phase = .registered) :
      Move s .serve { s with handle := false, phase := .serving }
  | abandon (hp : s.phase = .registered) :
      Move s .stop { s with handle := false, phase := .stopped }
  | stop (hp : s.phase = .serving) : Move s .stop { s with phase := .stopped }
  | renew {due : ℕ} (ht : s.task = some due) (hd : due ≤ s.now) :
      Move s .renew { s with
        lease := if s.alive then some s.now else s.lease
        task := some (due + keepAlivePeriod) }
  | cancel : Move s .cancel { s with task := none }
  | tick (hp : s.phase ≠ .registered) (ht : s.taskReady = false) :
      Move s .tick { s with now := s.now + 1 }

theorem next_move {s s' : State} {a : Label} (h : system.step s a = some s') : Move s a s' := by
  change next s a = some s' at h
  unfold next at h
  split at h
  · cases h
    exact .granted ‹_›
  · split_ifs at h with ha
    cases h
    exact .put ‹_› ha
  · cases h
    exact .fail (.inl ‹_›)
  · cases h
    exact .fail (.inr ‹_›)
  · cases h
    exact .serve ‹_›
  · cases h
    exact .abandon ‹_›
  · cases h
    exact .stop ‹_›
  · obtain ⟨due, ht, hs'⟩ := Option.bind_eq_some_iff.1 h
    by_cases hd : due ≤ s.now
    · rw [if_pos hd] at hs'
      exact Option.some.inj hs' ▸ .renew ht hd
    · rw [if_neg hd] at hs'
      cases hs'
  · split_ifs at h with hc
    cases h
    exact .cancel
  · cases h
  · split_ifs at h with ht
    cases h
    exact .tick (by assumption) (by simpa using ht)
  · cases h

/-- While the task lives no time has passed since the registration, and it has renewed the lease at
most once. -/
structure Fresh (s : State) (m : Past) (due : ℕ) : Prop where
  key : s.key
  now : s.now = m.registered
  alive : s.now < m.lastKeepAlive + leaseTtl
  due : due = if m.ticked then m.registered + keepAlivePeriod else m.registered

structure Tracked (s : State) (m : Past) : Prop where
  early : s.phase = .granting ∨ s.phase = .putting →
    s.key = false ∧ s.task = none ∧ m.ticked = false
  handle : s.phase ≠ .registered → s.handle = false
  lease : s.phase = .putting ∨ s.key → s.lease = some m.lastKeepAlive
  fresh : ∀ due, s.task = some due → Fresh s m due
  waited : s.phase = .putting → m.granted ≤ s.now
  ordered : s.key → m.granted ≤ m.registered

variable {s s' : State} {m : Past} {a : Label}

theorem Tracked.alive_iff (h : Tracked s m) (hk : s.phase = .putting ∨ s.key) :
    s.alive ↔ s.now < m.lastKeepAlive + leaseTtl := by
  simp [State.alive, h.lease hk]

/-- The handle is dropped before any time passes, so the task does not live to see time pass. -/
theorem Tracked.task_eq_none (h : Tracked s m) (hp : s.phase ≠ .registered)
    (ht : s.taskReady = false) : s.task = none := by
  cases htask : s.task with
  | none => rfl
  | some due => simp [State.taskReady, htask, h.handle hp] at ht

theorem Tracked.granted (h : Tracked s m) (hp : s.phase = .granting) :
    Tracked { s with lease := some s.now, phase := .putting } { m with granted := s.now } := by
  obtain ⟨hkey, htask, hticked⟩ := h.early (.inl hp)
  exact {
    early := fun _ => ⟨hkey, htask, hticked⟩
    handle := fun _ => h.handle (by simp [hp])
    lease := fun _ => by simp [Past.lastKeepAlive, hticked]
    fresh := fun due hdue => by simp [htask] at hdue
    waited := fun _ => Nat.le_refl _
    ordered := fun hk => by simp [hkey] at hk }

theorem Tracked.put (h : Tracked s m) (hp : s.phase = .putting) (ha : s.alive) :
    Tracked { s with key := true, task := some s.now, handle := true, phase := .registered }
      { m with registered := s.now } := by
  obtain ⟨-, -, hticked⟩ := h.early (.inr hp)
  have hlease := h.lease (.inl hp)
  have halive := (h.alive_iff (.inl hp)).1 ha
  simp only [Past.lastKeepAlive, hticked] at hlease halive
  exact {
    early := fun hearly => by simp at hearly
    handle := fun hne => absurd rfl hne
    lease := fun _ => by simpa [Past.lastKeepAlive, hticked] using hlease
    fresh := fun due hdue =>
      { key := rfl
        now := rfl
        alive := by simpa [Past.lastKeepAlive, hticked] using halive
        due := by simpa [hticked, eq_comm] using hdue }
    waited := fun hphase => by cases hphase
    ordered := fun _ => h.waited hp }

theorem Tracked.leave (h : Tracked s m) {phase : Phase}
    (hp : phase = .serving ∨ phase = .stopped) :
    Tracked { s with handle := false, phase := phase } m where
  early := fun hearly => by rcases hp with rfl | rfl <;> simp at hearly
  handle := fun _ => rfl
  lease := fun hk => h.lease (.inr (hk.resolve_left (by rcases hp with rfl | rfl <;> simp)))
  fresh := fun due hdue =>
    have hfresh := h.fresh due hdue
    { key := hfresh.key, now := hfresh.now, alive := hfresh.alive, due := hfresh.due }
  waited := fun hphase => by rcases hp with rfl | rfl <;> cases hphase
  ordered := h.ordered

theorem Tracked.leave' (h : Tracked s m) (hs : s.phase ≠ .registered) {phase : Phase}
    (hp : phase = .serving ∨ phase = .stopped) : Tracked { s with phase := phase } m := by
  have hgone := h.handle hs
  have hleave := h.leave hp
  rw [← hgone] at hleave
  exact hleave

/-- The task renews a lease that has not run out, in the instant of the registration. -/
theorem Tracked.renew (h : Tracked s m) {due : ℕ} (ht : s.task = some due) (hd : due ≤ s.now) :
    Tracked { s with
      lease := if s.alive then some s.now else s.lease
      task := some (due + keepAlivePeriod) } { m with ticked := true } := by
  obtain ⟨hkey, hnow, halive, hdue⟩ := h.fresh due ht
  have hlate : s.phase ≠ .granting ∧ s.phase ≠ .putting := by
    constructor <;> intro hphase <;> simp [(h.early (by simp [hphase])).1] at hkey
  have hticked : m.ticked = false := by
    cases hticked : m.ticked with
    | false => rfl
    | true =>
        rw [hticked, if_pos rfl] at hdue
        simp only [keepAlivePeriod] at hdue
        omega
  rw [hticked, if_neg (by simp)] at hdue
  exact {
    early := fun hearly => absurd hearly (by simp [hlate])
    handle := h.handle
    lease := fun _ => by
      rw [if_pos ((h.alive_iff (.inr hkey)).2 halive), hnow]
      simp [Past.lastKeepAlive]
    fresh := fun due' hdue' =>
      { key := hkey
        now := hnow
        alive := by simp [Past.lastKeepAlive, hnow, leaseTtl]
        due := by simpa [hdue, eq_comm] using hdue' }
    waited := fun hphase => absurd hphase hlate.2
    ordered := h.ordered }

theorem Tracked.cancel (h : Tracked s m) : Tracked { s with task := none } m where
  early := fun hearly => ⟨(h.early hearly).1, rfl, (h.early hearly).2.2⟩
  handle := h.handle
  lease := h.lease
  fresh := nofun
  waited := h.waited
  ordered := h.ordered

theorem Tracked.tick (h : Tracked s m) (hp : s.phase ≠ .registered) (ht : s.taskReady = false) :
    Tracked { s with now := s.now + 1 } m where
  early := h.early
  handle := h.handle
  lease := h.lease
  fresh := fun due hdue => by simp [h.task_eq_none hp ht] at hdue
  waited := fun hphase => Nat.le_succ_of_le (h.waited hphase)
  ordered := h.ordered

theorem tracked_init : Tracked system.init ⟨0, 0, false⟩ where
  early := fun _ => ⟨rfl, rfl, rfl⟩
  handle := fun _ => rfl
  lease := fun h => by rcases h with h | h <;> cases h
  fresh := nofun
  waited := nofun
  ordered := nofun

theorem tracked_step (h : Tracked s m) (hstep : system.step s a = some s') :
    Tracked s' (note m s a s') := by
  cases next_move hstep with
  | granted hp => exact h.granted hp
  | put hp ha => exact h.put hp ha
  | fail hp => exact h.leave' (by rcases hp with hp | hp <;> simp [hp]) (.inl rfl)
  | serve hp => exact h.leave (.inl rfl)
  | abandon hp => exact h.leave (.inr rfl)
  | stop hp => exact h.leave' (by simp [hp]) (.inr rfl)
  | renew ht hd => exact h.renew ht hd
  | cancel => exact h.cancel
  | tick hp ht => exact h.tick hp ht

theorem present_step (h : Tracked s m) (hpresent : Present (s, m)) (hc : StopsInTime (s, m) a)
    (hstep : system.step s a = some s') : Present (s', note m s a s') := by
  have htracked := tracked_step h hstep
  intro hkey hphase
  rw [htracked.alive_iff (.inr hkey)]
  -- Only a renewal and the passing of time touch what the lease depends on.
  cases next_move hstep with
  | granted hp =>
      simp only at hkey
      simp [(h.early (.inl hp)).1] at hkey
  | put hp ha =>
      obtain ⟨-, -, hticked⟩ := h.early (.inr hp)
      simpa [note, Past.lastKeepAlive, hticked] using (h.alive_iff (.inl hp)).1 ha
  | fail hp =>
      simp only at hkey
      simp [(h.early hp).1] at hkey
  | serve hp => exact (h.alive_iff (.inr hkey)).1 (hpresent hkey (by simp [hp]))
  | abandon hp => exact absurd rfl hphase
  | stop hp => exact absurd rfl hphase
  | renew ht hd => simp [note, Past.lastKeepAlive, (h.fresh _ ht).now, leaseTtl]
  | cancel => exact (h.alive_iff (.inr hkey)).1 (hpresent hkey hphase)
  | tick hp ht => exact hc rfl hkey hphase

theorem not_present_step (h : Tracked s m) (hc : ¬ StopsInTime (s, m) a)
    (hstep : system.step s a = some s') : ¬ Present (s', note m s a s') := by
  have htracked := tracked_step h hstep
  simp only [StopsInTime, Classical.not_imp] at hc
  obtain ⟨rfl, hkey, hphase, hlate⟩ := hc
  cases next_move hstep with
  | tick hp ht =>
      intro hpresent
      exact hlate ((htracked.alive_iff (.inr hkey)).1 (hpresent hkey hphase))

theorem tracked_observed {x y : State × Past} (h : Tracked x.1 x.2)
    (hstep : observed.step x a = some y) : Tracked y.1 y.2 := by
  obtain ⟨s', hs, rfl⟩ := TransitionSystem.exists_of_observe_step hstep
  exact tracked_step h hs

/-- A registered server is present throughout a run if and only if it stops within ten seconds from
the last keep-alive; and that comes no later than the registration. -/
theorem present_iff_stopsInTime {as : List Label} {y : State × Past}
    (he : observed.exec observed.init as = some y) :
    (observed.Throughout Present observed.init as ↔
        observed.Along StopsInTime observed.init as) ∧
      (y.1.key → y.2.lastKeepAlive ≤ y.2.registered) := by
  constructor
  · refine TransitionSystem.throughout_iff_along
      (I := fun x => Tracked x.1 x.2 ∧ Present x) (fun x hx => hx.2) ?_ ?_ ?_ he
    · rintro x a y ⟨h, hpresent⟩ hc hstep
      obtain ⟨s', hs, rfl⟩ := TransitionSystem.exists_of_observe_step hstep
      exact ⟨tracked_step h hs, present_step h hpresent hc hs⟩
    · rintro x a y ⟨h, -⟩ hc hstep
      obtain ⟨s', hs, rfl⟩ := TransitionSystem.exists_of_observe_step hstep
      exact not_present_step h hc hs
    · exact ⟨tracked_init, fun hkey => by cases hkey⟩
  · intro hkey
    have htracked := observed.exec_invariant (I := fun x => Tracked x.1 x.2)
      (fun _ _ _ => tracked_observed) tracked_init he
    have hordered := htracked.ordered hkey
    unfold Past.lastKeepAlive
    split_ifs
    · exact Nat.le_refl _
    · exact hordered

/-- The registration succeeds at once, and the task sees that its handle is gone before anything
else. -/
def startUp : List Label := [.granted, .put, .serve, .cancel]

def serving (t : ℕ) : State × Past := (⟨t, .serving, some 0, true, none, false⟩, ⟨0, 0, false⟩)

theorem exec_startUp : observed.exec observed.init startUp = some (serving 0) := rfl

theorem exec_ticks (n t : ℕ) :
    observed.exec (serving t) (List.replicate n .tick) = some (serving (t + n)) := by
  induction n generalizing t with
  | zero => rfl
  | succ n ih =>
      refine observed.exec_cons_eq_some.2 ⟨serving (t + 1), rfl, ?_⟩
      rw [ih (t + 1), Nat.add_assoc, Nat.add_comm 1]

theorem exec_serving (n : ℕ) :
    observed.exec observed.init (startUp ++ List.replicate n .tick) = some (serving n) := by
  have hticks := exec_ticks n 0
  rw [Nat.zero_add] at hticks
  exact observed.exec_append exec_startUp hticks

theorem present_iff_stopsInTime_startUp :
    (observed.Throughout Present observed.init (startUp ++ List.replicate 20 .tick) ↔
        observed.Along StopsInTime observed.init (startUp ++ List.replicate 20 .tick)) ∧
      ((serving 20).1.key → (serving 20).2.lastKeepAlive ≤ (serving 20).2.registered) :=
  present_iff_stopsInTime (exec_serving 20)

/-- Ten seconds after the registration the key of a server that serves is gone. -/
theorem key_gone : ∃ as s m, observed.exec observed.init as = some (s, m) ∧
    s.phase = .serving ∧ s.key ∧ s.now = m.registered + 10000 ∧ ¬ Present (s, m) := by
  refine ⟨_, _, _, exec_serving 10000, rfl, rfl, rfl, ?_⟩
  intro hpresent
  have halive := hpresent rfl nofun
  simp [State.alive, leaseTtl] at halive

end Rszero.RpcServer
