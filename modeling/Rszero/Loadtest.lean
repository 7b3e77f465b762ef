import Mathlib.Algebra.Order.BigOperators.Group.Finset
import Rszero.TransitionSystem

/-!
# The load tester

`loadtest::execute` without a duration: its workers, the task that stops them, the task that
displays the progress, and the joins. A step of a task is one access to what the tasks
share, or one write to the standard error. Every request is answered or fails. Tasks that are
spawned later take their first step later.
-/

namespace Rszero.Loadtest

/-- The counters are `AtomicU64`. -/
structure Shared where
  sent : ℕ
  ok : ℕ
  err : ℕ
  latencies : List ℕ
  should_stop : Bool
  deriving DecidableEq

/-- `fetch_add(1)` -/
def bump (n : ℕ) : ℕ := (n + 1) % 2 ^ 64

inductive Outcome
  | status (code : ℕ)
  | error
  deriving DecidableEq

/-- A worker before the access that the name tells. -/
inductive Worker
  | looping
  | checking
  | requesting
  | timing (code elapsed : ℕ)
  | counting (outcome : Outcome)
  | settling (outcome : Outcome)
  | reporting
  | finished
  deriving DecidableEq

/-- The sleep of the task comes before it looks again. -/
inductive StopTask
  | looking
  | storing
  | finished
  deriving DecidableEq

inductive Progress
  | sleeping
  | loadOk (sent : ℕ)
  | loadErr (sent ok : ℕ)
  | display (sent ok err : ℕ)
  | panicked
  deriving DecidableEq

/-- `execute` after it has spawned the tasks: `k` workers are joined, or all are and the display is
awaited. -/
inductive Main
  | joining (k : ℕ)
  | awaiting
  | report (sent ok err : ℕ) (latencies : List ℕ)
  deriving DecidableEq

structure State where
  shared : Shared
  workers : ℕ → Worker
  stopTask : StopTask
  progress : Progress
  main : Main

/-- A write to the standard error panics when it fails. -/
inductive Label
  | worker (i : ℕ)
  | answer (i code elapsed : ℕ)
  | failure (i : ℕ)
  | print (i : ℕ) (written : Bool)
  | stopTask
  | progress (written : Bool)
  | main
  deriving DecidableEq

/-- The task that stops the workers is spawned when there is a total. -/
def init (total : UInt64) : State where
  shared := ⟨0, 0, 0, [], false⟩
  workers _ := .looping
  stopTask := if 0 < total.toNat then .looking else .finished
  progress := .sleeping
  main := .joining 0

section Steps

variable (workers : ℕ) (total : UInt64)

def Worker.next (s : Shared) : Worker → Option (Shared × Worker)
  | .looping => some (s, if s.should_stop then .finished else .checking)
  | .checking =>
      some (s, if 0 < total.toNat ∧ total.toNat ≤ s.sent then .finished else .requesting)
  | .timing code elapsed =>
      some ({ s with latencies := s.latencies ++ [elapsed] }, .counting (.status code))
  | .counting outcome => some ({ s with sent := bump s.sent }, .settling outcome)
  | .settling (.status code) =>
      some (if 200 ≤ code ∧ code < 300 then { s with ok := bump s.ok }
        else { s with err := bump s.err }, .looping)
  | .settling .error => some ({ s with err := bump s.err }, .reporting)
  | .requesting | .reporting | .finished => none

/-- Of the errors the first five are written. -/
def Worker.print (s : Shared) (written : Bool) : Worker → Option (Shared × Worker)
  | .reporting => some (s, if s.err ≤ 5 ∧ written = false then .finished else .looping)
  | _ => none

def Worker.receive (s : Shared) (next : Worker) : Worker → Option (Shared × Worker)
  | .requesting => some (s, next)
  | _ => none

def StopTask.next (s : Shared) : StopTask → Option (Shared × StopTask)
  | .looking => some (s, if total.toNat ≤ s.sent then .storing else .looking)
  | .storing => some ({ s with should_stop := true }, .finished)
  | .finished => none

def Progress.next (s : Shared) (written : Bool) : Progress → Option Progress
  | .sleeping => some (.loadOk s.sent)
  | .loadOk sent => some (.loadErr sent s.ok)
  | .loadErr sent ok => some (if sent = 0 then .sleeping else .display sent ok s.err)
  | .display .. => some (if written then .sleeping else .panicked)
  | .panicked => none

/-- A join returns when the task has ended or panicked. -/
def mainNext (s : State) : Option State :=
  match s.main with
  | .joining k =>
      if k < workers then
        if s.workers k = .finished then some { s with main := .joining (k + 1) } else none
      else some { s with shared := { s.shared with should_stop := true }, main := .awaiting }
  | .awaiting =>
      if s.progress = .panicked then
        some { s with main := .report s.shared.sent s.shared.ok s.shared.err s.shared.latencies }
      else none
  | .report .. => none

def State.put (s : State) (i : ℕ) (r : Shared × Worker) : State :=
  { s with shared := r.1, workers := Function.update s.workers i r.2 }

def moved (s : State) (i : ℕ) (r : Worker → Option (Shared × Worker)) : Option State :=
  if i < workers then (r (s.workers i)).map (s.put i) else none

def step (s : State) : Label → Option State
  | .worker i => moved workers s i (Worker.next total s.shared)
  | .answer i code elapsed => moved workers s i (Worker.receive s.shared (.timing code elapsed))
  | .failure i => moved workers s i (Worker.receive s.shared (.counting .error))
  | .print i written => moved workers s i (Worker.print s.shared written)
  | .stopTask => (s.stopTask.next total s.shared).map (fun r =>
      { s with shared := r.1, stopTask := r.2 })
  | .progress written => (s.progress.next s.shared written).map (fun p => { s with progress := p })
  | .main => mainNext workers s

def system : TransitionSystem State Label where
  init := init total
  step := step workers total

end Steps

def Label.written : Label → Bool
  | .print _ written | .progress written => written
  | _ => true

def Written (run : List Label) : Prop := ∀ a ∈ run, a.written

def Finished (workers : ℕ) (s : State) : Prop := ∀ i < workers, s.workers i = .finished

def Reports (s : State) : Prop := ∃ sent ok err latencies, s.main = .report sent ok err latencies

/-- Whenever the workers have finished, they have sent what was asked for, and the report can still
be reached. -/
def Delivers (workers : ℕ) (total : UInt64) : Prop :=
  ∀ run s, (system workers total).exec (init total) run = some s → Written run →
    Finished workers s → s.shared.sent = total.toNat ∧ s.shared.ok + s.shared.err = s.shared.sent ∧
      ∃ run' s', (system workers total).exec s run' = some s' ∧ Written run' ∧ Reports s'

variable {workers : ℕ} {total : UInt64} {s s' : State} {a : Label} {run : List Label}

theorem moved_eq_some {i : ℕ} {r : Worker → Option (Shared × Worker)}
    (h : moved workers s i r = some s') :
    i < workers ∧ ∃ sh w, r (s.workers i) = some (sh, w) ∧ s' = s.put i (sh, w) := by
  unfold moved at h
  split at h
  case isTrue hi =>
    obtain ⟨⟨sh, w⟩, hr, rfl⟩ := Option.map_eq_some_iff.1 h
    exact ⟨hi, sh, w, hr, rfl⟩
  case isFalse => cases h

inductive Advance (total : UInt64) (s : Shared) (written : Bool) : Worker → Shared → Worker → Prop
  | stopped (h : s.should_stop) : Advance total s written .looping s .finished
  | go : Advance total s written .looping s .checking
  | reached (h : total.toNat ≤ s.sent) : Advance total s written .checking s .finished
  | below (h : 0 < total.toNat → s.sent < total.toNat) :
      Advance total s written .checking s .requesting
  | answered (code elapsed : ℕ) : Advance total s written .requesting s (.timing code elapsed)
  | failed : Advance total s written .requesting s (.counting .error)
  | timed (code elapsed : ℕ) : Advance total s written (.timing code elapsed)
      { s with latencies := s.latencies ++ [elapsed] } (.counting (.status code))
  | counted (outcome : Outcome) : Advance total s written (.counting outcome)
      { s with sent := bump s.sent } (.settling outcome)
  | settledOk (code : ℕ) : Advance total s written (.settling (.status code))
      { s with ok := bump s.ok } .looping
  | settledErr (code : ℕ) : Advance total s written (.settling (.status code))
      { s with err := bump s.err } .looping
  | settledError : Advance total s written (.settling .error)
      { s with err := bump s.err } .reporting
  | reported : Advance total s written .reporting s .looping
  | panicked (h : written = false) : Advance total s written .reporting s .finished

theorem next_advance {sh sh' : Shared} {w w' : Worker} (written : Bool)
    (h : w.next total sh = some (sh', w')) : Advance total sh written w sh' w' := by
  cases w with
  | looping =>
      obtain ⟨rfl, rfl⟩ := Prod.mk.inj (Option.some.inj h)
      split
      case isTrue hstop => exact .stopped hstop
      case isFalse => exact .go
  | checking =>
      obtain ⟨rfl, rfl⟩ := Prod.mk.inj (Option.some.inj h)
      split
      case isTrue hle => exact .reached hle.2
      case isFalse hle =>
        exact .below (fun hpos => Nat.lt_of_not_le (fun h => hle ⟨hpos, h⟩))
  | timing code elapsed =>
      obtain ⟨rfl, rfl⟩ := Prod.mk.inj (Option.some.inj h)
      exact .timed code elapsed
  | counting outcome =>
      obtain ⟨rfl, rfl⟩ := Prod.mk.inj (Option.some.inj h)
      exact .counted outcome
  | settling outcome =>
      cases outcome with
      | status code =>
          obtain ⟨rfl, rfl⟩ := Prod.mk.inj (Option.some.inj h)
          split
          case isTrue => exact .settledOk code
          case isFalse => exact .settledErr code
      | error =>
          obtain ⟨rfl, rfl⟩ := Prod.mk.inj (Option.some.inj h)
          exact .settledError
  | requesting => cases h
  | reporting => cases h
  | finished => cases h

theorem print_advance {sh sh' : Shared} {w w' : Worker} {written : Bool}
    (h : w.print sh written = some (sh', w')) : Advance total sh written w sh' w' := by
  cases w with
  | reporting =>
      obtain ⟨rfl, rfl⟩ := Prod.mk.inj (Option.some.inj h)
      split
      case isTrue hfails => exact .panicked hfails.2
      case isFalse => exact .reported
  | _ => cases h

theorem receive_advance {sh sh' : Shared} {next w w' : Worker} {written : Bool}
    (hnext : Advance total sh written .requesting sh next)
    (h : Worker.receive sh next w = some (sh', w')) : Advance total sh written w sh' w' := by
  cases w with
  | requesting =>
      obtain ⟨rfl, rfl⟩ := Prod.mk.inj (Option.some.inj h)
      exact hnext
  | _ => cases h

inductive Move (workers : ℕ) (total : UInt64) (s : State) (written : Bool) : State → Prop
  | worker {i : ℕ} {sh : Shared} {w : Worker} (hi : i < workers)
      (h : Advance total s.shared written (s.workers i) sh w) :
      Move workers total s written (s.put i (sh, w))
  | look (h : s.stopTask = .looking) (hle : total.toNat ≤ s.shared.sent) :
      Move workers total s written { s with stopTask := .storing }
  | wait : Move workers total s written s
  | stop (h : s.stopTask = .storing) : Move workers total s written
      { s with shared := { s.shared with should_stop := true }, stopTask := .finished }
  | progress {p : Progress} (h : s.progress.next s.shared written = some p) :
      Move workers total s written { s with progress := p }
  | join {k : ℕ} (h : s.main = .joining k) (hk : k < workers) (hw : s.workers k = .finished) :
      Move workers total s written { s with main := .joining (k + 1) }
  | joined {k : ℕ} (h : s.main = .joining k) (hk : workers ≤ k) : Move workers total s written
      { s with shared := { s.shared with should_stop := true }, main := .awaiting }
  | report (h : s.main = .awaiting) (hp : s.progress = .panicked) : Move workers total s written
      { s with main := .report s.shared.sent s.shared.ok s.shared.err s.shared.latencies }

theorem step_move (h : (system workers total).step s a = some s') :
    Move workers total s a.written s' := by
  cases a with
  | worker i =>
      obtain ⟨hi, sh, w, hr, rfl⟩ := moved_eq_some h
      exact .worker hi (next_advance _ hr)
  | answer i code elapsed =>
      obtain ⟨hi, sh, w, hr, rfl⟩ := moved_eq_some h
      exact .worker hi (receive_advance (.answered code elapsed) hr)
  | failure i =>
      obtain ⟨hi, sh, w, hr, rfl⟩ := moved_eq_some h
      exact .worker hi (receive_advance .failed hr)
  | print i written =>
      obtain ⟨hi, sh, w, hr, rfl⟩ := moved_eq_some h
      exact .worker hi (print_advance hr)
  | stopTask =>
      obtain ⟨r, hr, rfl⟩ := Option.map_eq_some_iff.1 h
      cases htask : s.stopTask with
      | looking =>
          rw [htask] at hr
          obtain rfl := Option.some.inj hr
          by_cases hle : total.toNat ≤ s.shared.sent
          · rw [if_pos hle]
            exact .look htask hle
          · rw [if_neg hle, ← htask]
            exact .wait
      | storing =>
          rw [htask] at hr
          obtain rfl := Option.some.inj hr
          exact .stop htask
      | finished =>
          rw [htask] at hr
          cases hr
  | progress written =>
      obtain ⟨p, hp, rfl⟩ := Option.map_eq_some_iff.1 h
      exact .progress hp
  | main =>
      replace h : mainNext workers s = some s' := h
      unfold mainNext at h
      cases hmain : s.main with
      | joining k =>
          simp only [hmain] at h
          by_cases hk : k < workers
          · rw [if_pos hk] at h
            by_cases hw : s.workers k = .finished
            · rw [if_pos hw] at h
              obtain rfl := Option.some.inj h
              exact .join hmain hk hw
            · rw [if_neg hw] at h
              cases h
          · rw [if_neg hk] at h
            obtain rfl := Option.some.inj h
            exact .joined hmain (Nat.le_of_not_lt hk)
      | awaiting =>
          simp only [hmain] at h
          by_cases hp : s.progress = .panicked
          · rw [if_pos hp] at h
            obtain rfl := Option.some.inj h
            exact .report hmain hp
          · rw [if_neg hp] at h
            cases h
      | report sent ok err latencies =>
          simp only [hmain] at h
          cases h

/-- The loop of the display has no exit of its own. -/
def Displays (s : State) : Prop := s.progress ≠ .panicked ∧ ¬ Reports s

theorem Displays.step (h : Displays s) (ha : a.written)
    (hstep : (system workers total).step s a = some s') : Displays s' := by
  obtain ⟨hprogress, hreports⟩ := h
  cases step_move hstep with
  | worker => exact ⟨hprogress, hreports⟩
  | look => exact ⟨hprogress, hreports⟩
  | wait => exact ⟨hprogress, hreports⟩
  | stop => exact ⟨hprogress, hreports⟩
  | progress hp =>
      refine ⟨?_, hreports⟩
      rintro rfl
      cases hcur : s.progress with
      | display sent ok err => simp [hcur, Progress.next, ha] at hp
      | loadErr sent ok =>
          rw [hcur] at hp
          have hp := Option.some.inj hp
          split at hp <;> cases hp
      | sleeping => simp [hcur, Progress.next] at hp
      | loadOk sent => simp [hcur, Progress.next] at hp
      | panicked => exact hprogress hcur
  | join => exact ⟨hprogress, fun ⟨_, _, _, _, h⟩ => nomatch h⟩
  | joined => exact ⟨hprogress, fun ⟨_, _, _, _, h⟩ => nomatch h⟩
  | report hmain hp => exact absurd hp hprogress

theorem Displays.exec (h : Displays s) (hwritten : Written run)
    (hexec : (system workers total).exec s run = some s') : Displays s' :=
  (system workers total).exec_invariant_along (C := fun _ a => a.written)
    (fun _ _ _ h ha hstep => h.step ha hstep) h hexec
    ((system workers total).along_of_mem (fun a ha _ => hwritten a ha) s)

theorem displays_init : Displays (init total) := ⟨nofun, fun ⟨_, _, _, _, h⟩ => nomatch h⟩

/-- As long as the standard error can be written, no run reaches the report. -/
theorem never_reports (hwritten : Written run)
    (hexec : (system workers total).exec (init total) run = some s) : ¬ Reports s :=
  (displays_init.exec hwritten hexec).2

theorem put_put (s : State) (i : ℕ) (r r' : Shared × Worker) :
    (s.put i r).put i r' = s.put i r' := by
  simp [State.put]

theorem put_workers_self (s : State) (i : ℕ) (r : Shared × Worker) : (s.put i r).workers i = r.2 :=
  Function.update_self ..

theorem put_workers_of_ne {i j : ℕ} (hne : j ≠ i) (s : State) (r : Shared × Worker) :
    (s.put i r).workers j = s.workers j := Function.update_of_ne hne ..

theorem step_worker {i : ℕ} (hi : i < workers) {r : Shared × Worker}
    (h : (s.workers i).next total s.shared = some r) :
    (system workers total).step s (.worker i) = some (s.put i r) := by
  change moved workers s i (Worker.next total s.shared) = _
  rw [moved, if_pos hi, h]
  rfl

/-- One access of worker `i`, and then the others of `run`. -/
theorem exec_worker {i : ℕ} (hi : i < workers) {r : Shared × Worker}
    (h : (s.workers i).next total s.shared = some r) :
    (system workers total).exec s (.worker i :: run) =
      (system workers total).exec (s.put i r) run := by
  rw [TransitionSystem.exec, step_worker hi h]
  rfl

def lookAgain (i : ℕ) : List Label := [.worker i, .worker i]

variable (total) in
theorem exec_lookAgain {i : ℕ} (hi : i < workers) (hlooping : s.workers i = .looping)
    (hrunning : s.shared.should_stop = false) :
    (system workers total).exec s (lookAgain i) =
      some (s.put i (s.shared,
        if 0 < total.toNat ∧ total.toNat ≤ s.shared.sent then .finished else .requesting)) := by
  have hfirst : (s.workers i).next total s.shared = some (s.shared, .checking) := by
    rw [hlooping, Worker.next, hrunning]
    rfl
  have hsecond : ((s.put i (s.shared, .checking)).workers i).next total
      (s.put i (s.shared, .checking)).shared =
        some (s.shared,
          if 0 < total.toNat ∧ total.toNat ≤ s.shared.sent then .finished else .requesting) := by
    rw [put_workers_self]
    rfl
  rw [lookAgain, exec_worker hi hfirst, exec_worker hi hsecond, put_put]
  rfl

variable (total) in
theorem exec_enter {i : ℕ} (hi : i < workers) (hlooping : s.workers i = .looping)
    (hrunning : s.shared.should_stop = false) (hsent : s.shared.sent < total.toNat) :
    (system workers total).exec s (lookAgain i) = some (s.put i (s.shared, .requesting)) := by
  rw [exec_lookAgain total hi hlooping hrunning, if_neg (by omega)]

def succeed (i : ℕ) : List Label := [.answer i 200 0, .worker i, .worker i, .worker i]

def Shared.succeeded (s : Shared) : Shared :=
  { s with sent := bump s.sent, ok := bump s.ok, latencies := s.latencies ++ [0] }

variable (total) in
theorem exec_succeed {i : ℕ} (hi : i < workers) (hrequesting : s.workers i = .requesting) :
    (system workers total).exec s (succeed i) =
      some (s.put i (s.shared.succeeded, .looping)) := by
  have hanswer : (system workers total).step s (.answer i 200 0) =
      some (s.put i (s.shared, .timing 200 0)) := by
    change moved workers s i (Worker.receive s.shared (.timing 200 0)) = _
    rw [moved, if_pos hi, hrequesting]
    rfl
  rw [succeed, TransitionSystem.exec, hanswer, Option.bind_some]
  rw [exec_worker hi (by rw [put_workers_self]; rfl), put_put]
  rw [exec_worker hi (by rw [put_workers_self]; rfl), put_put]
  rw [exec_worker hi (by rw [put_workers_self]; rfl), put_put]
  rfl

/-- All workers loop, and nobody has told them to stop. -/
structure Looping (s : State) : Prop where
  looping : ∀ i, s.workers i = .looping
  running : s.shared.should_stop = false

theorem Looping.put (h : Looping s) {i : ℕ} {sh : Shared} (hsh : sh.should_stop = false) :
    Looping (s.put i (sh, .looping)) where
  looping j := by
    by_cases hj : j = i
    · rw [hj, put_workers_self]
    · rw [put_workers_of_ne hj, h.looping]
  running := hsh

theorem bump_of_lt {n : ℕ} (h : n < total.toNat) : bump n = n + 1 :=
  Nat.mod_eq_of_lt (lt_of_le_of_lt h total.toNat_lt)

theorem written_append {run run' : List Label} (h : Written run) (h' : Written run') :
    Written (run ++ run') := fun a ha => (List.mem_append.1 ha).elim (h a) (h' a)

theorem written_lookAgain (i : ℕ) : Written (lookAgain i) := by
  intro a ha
  simp only [lookAgain, List.mem_cons, List.not_mem_nil, or_false, or_self] at ha
  rw [ha]
  rfl

theorem written_succeed (i : ℕ) : Written (succeed i) := by
  intro a ha
  simp only [succeed, List.mem_cons, List.not_mem_nil, or_false, or_self] at ha
  rcases ha with rfl | rfl <;> rfl

/-- One worker can make any number of the requests. -/
theorem exists_sent (hworkers : 1 ≤ workers) {n : ℕ} (hn : n ≤ total.toNat) :
    ∃ run s, (system workers total).exec (init total) run = some s ∧ Written run ∧ Looping s ∧
      s.shared.sent = n := by
  induction n with
  | zero => exact ⟨[], init total, rfl, nofun, ⟨fun _ => rfl, rfl⟩, rfl⟩
  | succ n ih =>
      obtain ⟨run, s, hexec, hwritten, h, hsent⟩ := ih (Nat.le_of_succ_le hn)
      have hlt : s.shared.sent < total.toNat := by omega
      have hlook := exec_enter total hworkers (h.looping 0) h.running hlt
      have hsucceed := exec_succeed total (show 0 < workers from hworkers)
        (put_workers_self s 0 (s.shared, .requesting))
      rw [put_put] at hsucceed
      refine ⟨run ++ (lookAgain 0 ++ succeed 0), _,
        (system workers total).exec_append hexec
          ((system workers total).exec_append hlook hsucceed),
        written_append hwritten (written_append (written_lookAgain 0) (written_succeed 0)),
        h.put h.running, ?_⟩
      change bump s.shared.sent = n + 1
      rw [bump_of_lt hlt, hsent]

variable (workers) in
/-- When enough is sent, the workers can finish. -/
theorem exists_finished (h : Looping s) (htotal : 1 ≤ total.toNat)
    (hsent : total.toNat ≤ s.shared.sent) :
    ∃ run s', (system workers total).exec s run = some s' ∧ Written run ∧ Finished workers s' ∧
      s'.shared = s.shared := by
  suffices hsome : ∀ k ≤ workers, ∃ run s', (system workers total).exec s run = some s' ∧
      Written run ∧ (∀ i < k, s'.workers i = .finished) ∧ (∀ i, k ≤ i → s'.workers i = .looping) ∧
      s'.shared = s.shared by
    obtain ⟨run, s', hexec, hwritten, hfinished, -, hshared⟩ := hsome workers le_rfl
    exact ⟨run, s', hexec, hwritten, hfinished, hshared⟩
  intro k hk
  induction k with
  | zero => exact ⟨[], s, rfl, nofun, nofun, fun i _ => h.looping i, rfl⟩
  | succ k ih =>
      obtain ⟨run, t, hexec, hwritten, hfinished, hlooping, hshared⟩ := ih (Nat.le_of_succ_le hk)
      have hlook := exec_lookAgain total hk (hlooping k le_rfl)
        (hshared ▸ h.running)
      rw [if_pos ⟨htotal, hshared ▸ hsent⟩] at hlook
      refine ⟨run ++ lookAgain k, _, (system workers total).exec_append hexec hlook,
        written_append hwritten (written_lookAgain k), ?_, ?_, hshared⟩
      · intro i hi
        rcases Nat.lt_succ_iff_lt_or_eq.1 hi with hi | rfl
        · rw [put_workers_of_ne (Nat.ne_of_lt hi)]
          exact hfinished i hi
        · exact put_workers_self ..
      · intro i hi
        rw [put_workers_of_ne (Nat.ne_of_gt hi)]
        exact hlooping i (Nat.le_of_succ_le hi)

/-- Whatever is asked for, there is a run after which the workers have finished and the report is
never reached. -/
theorem not_delivers (hworkers : 1 ≤ workers) (htotal : 1 ≤ total.toNat) :
    ¬ Delivers workers total := by
  intro hdelivers
  obtain ⟨run, s, hexec, hwritten, hlooping, hsent⟩ := exists_sent hworkers (le_refl total.toNat)
  obtain ⟨run', s', hexec', hwritten', hfinished, -⟩ :=
    exists_finished workers hlooping htotal hsent.ge
  have hwhole := (system workers total).exec_append hexec hexec'
  obtain ⟨-, -, run'', s'', hexec'', hwritten'', hreports⟩ :=
    hdelivers _ s' hwhole (written_append hwritten hwritten') hfinished
  exact never_reports (written_append (written_append hwritten hwritten') hwritten'')
    ((system workers total).exec_append hwhole hexec'') hreports

theorem not_delivers_ten : ¬ Delivers 4 10 := not_delivers (by decide) (by decide)

/-- One worker sends the one request, and the display keeps `execute` from its report. -/
theorem one_request_not_delivered : ¬ Delivers 1 1 := by
  intro hdelivers
  have hwritten := written_append (written_append (written_lookAgain 0) (written_succeed 0))
    (written_lookAgain 0)
  obtain ⟨-, -, run, s, hexec, hwritten', hreports⟩ := hdelivers _ _ rfl hwritten (by
    intro i hi
    obtain rfl := Nat.lt_one_iff.1 hi
    rfl)
  exact never_reports (written_append hwritten hwritten')
    ((system 1 1).exec_append (s := init 1) rfl hexec) hreports

/-- The worker has seen fewer than the total, and has not counted its request. -/
def pending : Worker → ℕ
  | .requesting | .timing .. | .counting _ => 1
  | _ => 0

def unsettled : Worker → ℕ
  | .settling _ => 1
  | _ => 0

def tally (workers : ℕ) (f : Worker → ℕ) (s : State) : ℕ :=
  ∑ i ∈ Finset.range workers, f (s.workers i)

theorem tally_put (f : Worker → ℕ) {i : ℕ} (hi : i < workers) (s : State) (sh : Shared)
    (w : Worker) :
    tally workers f (s.put i (sh, w)) + f (s.workers i) = tally workers f s + f w := by
  have hmem := Finset.mem_range.2 hi
  have hothers : ∑ j ∈ (Finset.range workers).erase i, f ((s.put i (sh, w)).workers j) =
      ∑ j ∈ (Finset.range workers).erase i, f (s.workers j) :=
    Finset.sum_congr rfl (fun j hj => by rw [put_workers_of_ne (Finset.ne_of_mem_erase hj)])
  rw [tally, tally, ← Finset.add_sum_erase _ _ hmem, hothers, put_workers_self,
    ← Finset.add_sum_erase _ (fun j => f (s.workers j)) hmem]
  change f w + _ + _ = _
  omega

theorem le_tally (f : Worker → ℕ) {i : ℕ} (hi : i < workers) (s : State) :
    f (s.workers i) ≤ tally workers f s :=
  Finset.single_le_sum (f := fun j => f (s.workers j)) (fun _ _ => Nat.zero_le _)
    (Finset.mem_range.2 hi)

theorem tally_pending_le (workers : ℕ) (s : State) : tally workers pending s ≤ workers := by
  have hle : ∀ w, pending w ≤ 1 := by
    intro w
    cases w <;> simp [pending]
  have hsum := Finset.sum_le_card_nsmul (Finset.range workers) _ 1 (fun i _ => hle (s.workers i))
  simpa [tally] using hsum

structure Effect (total : UInt64) (sh : Shared) (w : Worker) (sh' : Shared) (w' : Worker) :
    Prop where
  sent : sh'.sent + pending w' = sh.sent + pending w ∨
    (0 < total.toNat → sh.sent < total.toNat) ∧ sh'.sent = sh.sent ∧ pending w' = 1
  settled : sh'.ok + sh'.err + unsettled w' + sh.sent = sh.ok + sh.err + unsettled w + sh'.sent
  le : sh.sent ≤ sh'.sent
  should_stop : sh'.should_stop = sh.should_stop
  finished : w' = .finished → total.toNat ≤ sh'.sent ∨ sh.should_stop
  working : w ≠ .finished

theorem Advance.effect {sh sh' : Shared} {w w' : Worker} (h : Advance total sh true w sh' w')
    (hsent : sh.sent + pending w < 2 ^ 64) (hsettled : sh.ok + sh.err + unsettled w ≤ sh.sent) :
    Effect total sh w sh' w' := by
  have hbump (n : ℕ) (hn : n + 1 < 2 ^ 64) : bump n = n + 1 := Nat.mod_eq_of_lt hn
  cases h with
  | stopped hstop => exact ⟨.inl rfl, rfl, le_rfl, rfl, fun _ => .inr hstop, nofun⟩
  | go => exact ⟨.inl rfl, rfl, le_rfl, rfl, nofun, nofun⟩
  | reached hle => exact ⟨.inl rfl, rfl, le_rfl, rfl, fun _ => .inl hle, nofun⟩
  | below hlt => exact ⟨.inr ⟨hlt, rfl, rfl⟩, rfl, le_rfl, rfl, nofun, nofun⟩
  | answered code elapsed => exact ⟨.inl rfl, rfl, le_rfl, rfl, nofun, nofun⟩
  | failed => exact ⟨.inl rfl, rfl, le_rfl, rfl, nofun, nofun⟩
  | timed code elapsed => exact ⟨.inl rfl, rfl, le_rfl, rfl, nofun, nofun⟩
  | counted outcome =>
      have hcount := hbump sh.sent hsent
      refine ⟨.inl ?_, ?_, ?_, rfl, nofun, nofun⟩
      · simp only [hcount, pending]
      · simp only [hcount, unsettled]
        omega
      · simp only [hcount]
        omega
  | settledOk code =>
      simp only [pending, unsettled] at hsent hsettled
      have hcount := hbump sh.ok (by omega)
      refine ⟨.inl rfl, ?_, le_rfl, rfl, nofun, nofun⟩
      simp only [hcount, unsettled]
      omega
  | settledErr | settledError =>
      simp only [pending, unsettled] at hsent hsettled
      have hcount := hbump sh.err (by omega)
      refine ⟨.inl rfl, ?_, le_rfl, rfl, nofun, nofun⟩
      simp only [hcount, unsettled]
      omega
  | reported => exact ⟨.inl rfl, rfl, le_rfl, rfl, nofun, nofun⟩
  | panicked hfalse => cases hfalse

/-- The requests that are counted and those that will be are fewer than the total and the workers
together, and nobody has stopped before the total was reached. -/
structure Counted (workers : ℕ) (total : UInt64) (s : State) : Prop where
  below : s.shared.sent + tally workers pending s + 1 ≤ total.toNat + workers
  settled : s.shared.ok + s.shared.err + tally workers unsettled s = s.shared.sent
  stopped : s.shared.should_stop → total.toNat ≤ s.shared.sent
  storing : s.stopTask = .storing → total.toNat ≤ s.shared.sent
  finished : ∀ i < workers, s.workers i = .finished → total.toNat ≤ s.shared.sent
  joined : ∀ k, s.main = .joining k → ∀ i < k, s.workers i = .finished

theorem Counted.worker (h : Counted workers total s) (htotal : 1 ≤ total.toNat)
    (hbound : total.toNat + workers ≤ 2 ^ 64) {i : ℕ} (hi : i < workers) {sh : Shared} {w : Worker}
    (hadvance : Advance total s.shared true (s.workers i) sh w) :
    Counted workers total (s.put i (sh, w)) := by
  have hbelow := h.below
  have hsettled := h.settled
  have hpending := tally_put pending hi s sh w
  have hunsettled := tally_put unsettled hi s sh w
  have hcard := tally_pending_le workers (s.put i (sh, w))
  have heffect := hadvance.effect (by have := le_tally pending hi s; omega)
    (by have := le_tally unsettled hi s; omega)
  have hsent := heffect.settled
  have hle := heffect.le
  constructor
  case below =>
    change sh.sent + _ + 1 ≤ _
    rcases heffect.sent with heq | ⟨hlt, heq, hone⟩
    · omega
    · have hlt := hlt htotal
      omega
  case settled =>
    change sh.ok + sh.err + _ = sh.sent
    omega
  case stopped =>
    intro hstop
    exact (h.stopped (heffect.should_stop ▸ hstop)).trans hle
  case storing => exact fun hstoring => (h.storing hstoring).trans hle
  case finished =>
    intro j hj hfinished
    by_cases hji : j = i
    · rw [hji, put_workers_self] at hfinished
      rcases heffect.finished hfinished with hreached | hstop
      · exact hreached
      · exact (h.stopped hstop).trans hle
    · rw [put_workers_of_ne hji] at hfinished
      exact (h.finished j hj hfinished).trans hle
  case joined =>
    intro k hk j hj
    have hfinished := h.joined k hk j hj
    by_cases hji : j = i
    · exact absurd (hji ▸ hfinished) heffect.working
    · rwa [put_workers_of_ne hji]

theorem Counted.step (h : Counted workers total s) (hworkers : 1 ≤ workers)
    (htotal : 1 ≤ total.toNat) (hbound : total.toNat + workers ≤ 2 ^ 64) (ha : a.written)
    (hstep : (system workers total).step s a = some s') : Counted workers total s' := by
  have hmove := step_move hstep
  rw [ha] at hmove
  cases hmove with
  | worker hi hadvance => exact h.worker htotal hbound hi hadvance
  | look hlooking hle => exact { h with storing := fun _ => hle }
  | wait => exact h
  | stop hstoring => exact { h with stopped := fun _ => h.storing hstoring, storing := nofun }
  | progress => exact { h with }
  | @join k hmain hk hw =>
      refine { h with joined := ?_ }
      intro k' hk' i hi
      cases hk'
      rcases Nat.lt_succ_iff_lt_or_eq.1 hi with hi | rfl
      · exact h.joined k hmain i hi
      · exact hw
  | joined hmain hk =>
      have hfirst := h.joined _ hmain 0 (lt_of_lt_of_le hworkers hk)
      exact { h with stopped := fun _ => h.finished 0 hworkers hfirst, joined := nofun }
  | report => exact { h with joined := nofun }

theorem counted_init (htotal : 1 ≤ total.toNat) : Counted workers total (init total) where
  below := by
    simp only [init, tally, pending, Finset.sum_const_zero]
    omega
  settled := by simp [init, tally, unsettled]
  stopped := nofun
  storing := by
    intro hstoring
    have hpos : 0 < total.toNat := htotal
    rw [init, if_pos hpos] at hstoring
    cases hstoring
  finished := nofun
  joined k hk i hi := by
    cases hk
    exact absurd hi (Nat.not_lt_zero i)

/-- When the workers have finished, each of them has sent at most one request too many, and every
request is counted as a success or as an error. -/
theorem finished_counts (hworkers : 1 ≤ workers) (htotal : 1 ≤ total.toNat)
    (hbound : total.toNat + workers ≤ 2 ^ 64) (hwritten : Written run)
    (hexec : (system workers total).exec (init total) run = some s)
    (hfinished : Finished workers s) :
    total.toNat ≤ s.shared.sent ∧ s.shared.sent + 1 ≤ total.toNat + workers ∧
      s.shared.ok + s.shared.err = s.shared.sent := by
  have h : Counted workers total s :=
    (system workers total).exec_invariant_along (C := fun _ a => a.written)
      (fun _ _ _ h ha hstep => h.step hworkers htotal hbound ha hstep) (counted_init htotal) hexec
      ((system workers total).along_of_mem (fun a ha _ => hwritten a ha) _)
  have hzero (f : Worker → ℕ) (hf : f .finished = 0) : tally workers f s = 0 :=
    Finset.sum_eq_zero (fun i hi => by rw [hfinished i (Finset.mem_range.1 hi), hf])
  have hbelow := h.below
  have hsettled := h.settled
  rw [hzero pending rfl] at hbelow
  rw [hzero unsettled rfl] at hsettled
  exact ⟨h.finished 0 hworkers (hfinished 0 hworkers), hbelow, hsettled⟩

/-- Two workers that look at the counter before either has counted its request. -/
theorem exists_overshoot (hworkers : 2 ≤ workers) (htotal : 1 ≤ total.toNat)
    (hbound : total.toNat + workers ≤ 2 ^ 64) :
    ∃ run s, (system workers total).exec (init total) run = some s ∧ Written run ∧
      Finished workers s ∧ s.shared.sent = total.toNat + 1 := by
  have hzero : 0 < workers := by omega
  have hone : 1 < workers := by omega
  obtain ⟨run, s, hexec, hwritten, h, hsent⟩ := exists_sent (Nat.le_of_succ_le hworkers)
    (Nat.sub_le total.toNat 1)
  have hlt : s.shared.sent < total.toNat := by omega
  let entered := (s.put 0 (s.shared, .requesting)).put 1 (s.shared, .requesting)
  have hlook₀ := exec_enter total hzero (h.looping 0) h.running hlt
  have hlook₁ : (system workers total).exec (s.put 0 (s.shared, .requesting)) (lookAgain 1) =
      some entered :=
    exec_enter total hone ((put_workers_of_ne Nat.one_ne_zero ..).trans (h.looping 1)) h.running hlt
  have hentered : entered.workers 0 = .requesting :=
    (put_workers_of_ne Nat.zero_ne_one ..).trans (put_workers_self ..)
  have hsucceed₀ := exec_succeed total hzero hentered
  let first := entered.put 0 (s.shared.succeeded, .looping)
  have hfirst : first.workers 1 = .requesting :=
    (put_workers_of_ne Nat.one_ne_zero ..).trans (put_workers_self ..)
  have hsucceed₁ := exec_succeed total hone hfirst
  have hboth := (system workers total).exec_append hexec
    ((system workers total).exec_append hlook₀ ((system workers total).exec_append hlook₁
      ((system workers total).exec_append hsucceed₀ hsucceed₁)))
  have hlooping : Looping (first.put 1 (first.shared.succeeded, .looping)) := by
    refine ⟨fun j => ?_, h.running⟩
    by_cases hj : j = 1
    · rw [hj, put_workers_self]
    · rw [put_workers_of_ne hj]
      by_cases hj' : j = 0
      · rw [hj', put_workers_self]
      · rw [put_workers_of_ne hj', put_workers_of_ne hj, put_workers_of_ne hj', h.looping]
  have htwice : first.shared.succeeded.sent = total.toNat + 1 := by
    change bump (bump s.shared.sent) = _
    rw [bump_of_lt hlt, hsent, Nat.sub_add_cancel htotal]
    exact Nat.mod_eq_of_lt (by omega)
  obtain ⟨run', s', hexec', hwritten', hfinished, hshared⟩ := exists_finished workers
    hlooping htotal (htwice.ge.trans' (Nat.le_succ _))
  refine ⟨_, s', (system workers total).exec_append hboth hexec', ?_, hfinished, hshared ▸ htwice⟩
  exact written_append (written_append hwritten (written_append (written_lookAgain 0)
    (written_append (written_lookAgain 1) (written_append (written_succeed 0)
      (written_succeed 1))))) hwritten'

/-- The number sent is exactly the total in every run if and only if one worker sends. -/
theorem sent_exact_iff (hworkers : 1 ≤ workers) (htotal : 1 ≤ total.toNat)
    (hbound : total.toNat + workers ≤ 2 ^ 64) :
    (∀ run s, (system workers total).exec (init total) run = some s → Written run →
      Finished workers s → s.shared.sent = total.toNat) ↔ workers = 1 := by
  constructor
  · intro hexact
    by_contra hne
    obtain ⟨run, s, hexec, hwritten, hfinished, hsent⟩ :=
      exists_overshoot (show 2 ≤ workers by omega) htotal hbound
    have := hexact run s hexec hwritten hfinished
    omega
  · rintro rfl run s hexec hwritten hfinished
    obtain ⟨hle, hlt, -⟩ := finished_counts hworkers htotal hbound hwritten hexec hfinished
    omega

end Rszero.Loadtest
