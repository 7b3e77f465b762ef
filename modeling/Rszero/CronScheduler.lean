import Rszero.CronSearch
import Rszero.TransitionSystem

/-!
# The cron scheduler

The loop of `CronScheduler::cron`: it reads the clock, sleeps for the milliseconds to the next
minute that matches, runs the task and pauses. Every sleep may last longer than asked for, and a
task takes any time.
-/

namespace Rszero.Cron

open Calendar

/-- What the clock shows; it has no leap seconds. -/
structure Reading extends DateTime where
  frac_lt_second : frac < 1000000000

/-- The task was started at a time, for a minute. -/
structure Start where
  target : DateTime
  time : Reading

inductive Phase
  | top
  | planned (now : Reading) (next : Option DateTime)
  | sleeping (ends : ℤ) (next : DateTime)
  | running
  | pausing (ends : ℤ)
  | stopped

structure Loop where
  time : Reading
  phase : Phase
  starts : List Start

/-- The token may be cancelled, or the task may panic, wherever the loop awaits something. -/
inductive LoopStep
  | tick (time : Reading)
  | read
  | begin
  | wake
  | finish
  | stop

def numMilliseconds (nanos : ℤ) : ℤ := nanos.tdiv 1000000

namespace Loop

def start (s : Loop) (next : DateTime) : Loop :=
  { s with phase := .running, starts := s.starts ++ [⟨next, s.time⟩] }

def pause (s : Loop) (milliseconds : ℤ) : Loop :=
  { s with phase := .pausing (s.time.nanos + milliseconds * 1000000) }

/-- What follows the search, which began at `now`. -/
def proceed (s : Loop) (now : Reading) : Option DateTime → Loop
  | some next =>
      let delay := numMilliseconds (next.nanos - now.nanos)
      if delay > 0 then { s with phase := .sleeping (s.time.nanos + delay * 1000000) next }
      else s.start next
  | none => s.pause 60000

def step (e : CronExpr) (s : Loop) : LoopStep → Option Loop
  | .tick time => if s.time.nanos ≤ time.nanos then some { s with time := time } else none
  | .read => match s.phase with
      | .top => some { s with phase := .planned s.time (e.nextAfter s.time.toDateTime) }
      | _ => none
  | .begin => match s.phase with
      | .planned now next => some (s.proceed now next)
      | _ => none
  | .wake => match s.phase with
      | .sleeping ends next => if ends ≤ s.time.nanos then some (s.start next) else none
      | .pausing ends => if ends ≤ s.time.nanos then some { s with phase := .top } else none
      | _ => none
  -- Small sleep to avoid double-firing within the same minute
  | .finish => match s.phase with
      | .running => some (s.pause 1000)
      | _ => none
  | .stop => match s.phase with
      | .planned .. | .stopped => none
      | _ => some { s with phase := .stopped }

end Loop

def cron (e : CronExpr) (time : Reading) : TransitionSystem Loop LoopStep where
  init := ⟨time, .top, []⟩
  step := Loop.step e

/-- The minutes increase, they match, and no start is more than a millisecond early. -/
structure Loop.OncePerMinute (e : CronExpr) (s : Loop) : Prop where
  ascending : s.starts.Pairwise (fun a b => a.target.Before b.target)
  matching : ∀ a ∈ s.starts, a.target.IsMinute ∧ e.matchesAt a.target
  timely : ∀ a ∈ s.starts, a.target.nanos ≤ a.time.nanos + 1000000

variable {e : CronExpr} {s s' : Loop} {now : Reading} {next : DateTime}

def Loop.ServedBy (s : Loop) (nanos : ℤ) : Prop := ∀ a ∈ s.starts, a.target.nanos ≤ nanos

structure Loop.Upcoming (e : CronExpr) (s : Loop) (next : DateTime) : Prop where
  isMinute : next.IsMinute
  matchesAt : e.matchesAt next
  later : ∀ a ∈ s.starts, a.target.Before next

theorem Loop.ServedBy.mono {n m : ℤ} (h : s.ServedBy n) (hle : n ≤ m) : s.ServedBy m :=
  fun a ha => (h a ha).trans hle

/-- Only the starts matter for these. -/
theorem Loop.OncePerMinute.of_starts (h : s.OncePerMinute e) (hs : s'.starts = s.starts) :
    s'.OncePerMinute e where
  ascending := hs ▸ h.ascending
  matching := hs ▸ h.matching
  timely := hs ▸ h.timely

theorem Loop.Upcoming.of_starts (h : s.Upcoming e next) (hs : s'.starts = s.starts) :
    s'.Upcoming e next where
  isMinute := h.isMinute
  matchesAt := h.matchesAt
  later := hs ▸ h.later

theorem before_next {t : DateTime} (ht : t.IsMinute) (hle : t.nanos ≤ now.nanos)
    (h : e.nextAfter now.toDateTime = some next) : t.Before next := by
  obtain ⟨hnext, -, hafter, -⟩ := CronExpr.nextAfter_eq_some h
  have hlt := now.toDateTime.nanos_lt now.frac_lt_second
  rw [ht.nanos_eq] at hle
  rw [hnext.before_iff] at hafter ⊢
  omega

theorem Loop.OncePerMinute.upcoming (h : s.OncePerMinute e) (hserved : s.ServedBy now.nanos)
    (hnext : e.nextAfter now.toDateTime = some next) : s.Upcoming e next := by
  obtain ⟨hminute, hmatch, -⟩ := CronExpr.nextAfter_eq_some hnext
  refine ⟨hminute, hmatch, ?_⟩
  intro a ha
  exact before_next (h.matching a ha).1 (hserved a ha) hnext

/-- The delay in milliseconds falls short of the time to the target by less than a millisecond. -/
theorem lt_numMilliseconds (n : ℤ) : n < numMilliseconds n * 1000000 + 1000000 := by
  unfold numMilliseconds
  have hdiv := Int.mul_tdiv_add_tmod n 1000000
  have hmod := Int.tmod_lt_of_pos n (b := 1000000) (by omega)
  omega

/-- What is known of the minutes that were served, in each phase. -/
def Loop.Progress (e : CronExpr) (s : Loop) : Prop :=
  match s.phase with
  | .top => s.ServedBy s.time.nanos
  | .planned now next => now.nanos ≤ s.time.nanos ∧ s.ServedBy now.nanos ∧
      ∀ t, next = some t → s.Upcoming e t
  | .sleeping ends next => s.Upcoming e next ∧ next.nanos ≤ ends + 1000000
  | .running => s.ServedBy (s.time.nanos + 1000000)
  | .pausing ends => s.ServedBy ends
  | .stopped => True

structure Loop.Invariant (e : CronExpr) (s : Loop) : Prop where
  once : s.OncePerMinute e
  progress : s.Progress e

theorem Loop.Invariant.start (h : s.OncePerMinute e) (hnext : s.Upcoming e next)
    (htime : next.nanos ≤ s.time.nanos + 1000000) : (s.start next).Invariant e where
  once := by
    refine ⟨?_, ?_, ?_⟩
    · rw [Loop.start, List.pairwise_append]
      refine ⟨h.ascending, List.pairwise_singleton .., ?_⟩
      intro a ha b hb
      rw [List.mem_singleton.1 hb]
      exact hnext.later a ha
    · rw [Loop.start, List.forall_mem_append, List.forall_mem_singleton]
      exact ⟨h.matching, hnext.isMinute, hnext.matchesAt⟩
    · rw [Loop.start, List.forall_mem_append, List.forall_mem_singleton]
      exact ⟨h.timely, htime⟩
  progress := by
    intro a ha
    rcases List.mem_append.1 ha with ha | ha
    · have hbefore := hnext.later a ha
      rw [hnext.isMinute.before_iff] at hbefore
      have htarget := (h.matching a ha).1.nanos_eq
      rw [hnext.isMinute.nanos_eq] at htime
      change a.target.nanos ≤ s.time.nanos + 1000000
      omega
    · rw [List.mem_singleton.1 ha]
      exact htime

theorem Loop.Invariant.tick {time : Reading} (h : s.Invariant e)
    (hle : s.time.nanos ≤ time.nanos) : Loop.Invariant e { s with time := time } where
  once := h.once.of_starts rfl
  progress := by
    have hprogress := h.progress
    unfold Loop.Progress at hprogress ⊢
    cases hphase : s.phase with
    | top =>
        simp only [hphase] at hprogress ⊢
        exact hprogress.mono hle
    | planned now next =>
        simp only [hphase] at hprogress ⊢
        obtain ⟨hnow, hserved, hnext⟩ := hprogress
        exact ⟨hnow.trans hle, hserved, fun t ht => (hnext t ht).of_starts rfl⟩
    | sleeping ends next =>
        simp only [hphase] at hprogress ⊢
        obtain ⟨hnext, hends⟩ := hprogress
        exact ⟨hnext.of_starts rfl, hends⟩
    | running =>
        simp only [hphase] at hprogress ⊢
        exact hprogress.mono (by omega)
    | pausing ends =>
        simp only [hphase] at hprogress ⊢
        exact hprogress
    | stopped => trivial

theorem Loop.Invariant.read (h : s.Invariant e) (hphase : s.phase = .top) :
    Loop.Invariant e
      { s with phase := .planned s.time (e.nextAfter s.time.toDateTime) } where
  once := h.once.of_starts rfl
  progress := by
    have hserved : s.ServedBy s.time.nanos := by
      have hprogress := h.progress
      rwa [Loop.Progress, hphase] at hprogress
    refine ⟨Int.le_refl _, hserved, ?_⟩
    intro t ht
    exact (h.once.upcoming hserved ht).of_starts rfl

theorem Loop.Invariant.pause {milliseconds : ℤ} (h : s.OncePerMinute e)
    (hserved : s.ServedBy (s.time.nanos + milliseconds * 1000000)) :
    (s.pause milliseconds).Invariant e :=
  ⟨h.of_starts rfl, hserved⟩

theorem Loop.Invariant.proceed {target : Option DateTime} (h : s.Invariant e)
    (hphase : s.phase = .planned now target) : (s.proceed now target).Invariant e := by
  have hprogress := h.progress
  rw [Loop.Progress, hphase] at hprogress
  obtain ⟨hnow, hserved, hnext⟩ := hprogress
  cases target with
  | none => exact .pause h.once (hserved.mono (by omega))
  | some next =>
      have hupcoming := hnext next rfl
      have hdelay := lt_numMilliseconds (next.nanos - now.nanos)
      rw [Loop.proceed]
      split_ifs
      · refine ⟨h.once.of_starts rfl, hupcoming.of_starts rfl, ?_⟩
        omega
      · exact .start h.once hupcoming (by omega)

theorem Loop.Invariant.step {a : LoopStep} (h : s.Invariant e) (hstep : s.step e a = some s') :
    s'.Invariant e := by
  have hprogress := h.progress
  unfold Loop.Progress at hprogress
  cases a with
  | tick time =>
      rw [Loop.step] at hstep
      split_ifs at hstep with hle
      cases hstep
      exact h.tick hle
  | read =>
      cases hphase : s.phase <;> simp only [Loop.step, hphase, reduceCtorEq] at hstep
      cases hstep
      exact h.read hphase
  | begin =>
      cases hphase : s.phase <;> simp only [Loop.step, hphase, reduceCtorEq] at hstep
      cases hstep
      exact h.proceed hphase
  | wake =>
      cases hphase : s.phase <;> simp only [Loop.step, hphase, reduceCtorEq] at hstep
      · split_ifs at hstep with hends
        cases hstep
        simp only [hphase] at hprogress
        exact .start h.once hprogress.1 (by omega)
      · split_ifs at hstep with hends
        cases hstep
        simp only [hphase] at hprogress
        exact ⟨h.once.of_starts rfl, hprogress.mono hends⟩
  | finish =>
      cases hphase : s.phase <;> simp only [Loop.step, hphase, reduceCtorEq] at hstep
      cases hstep
      simp only [hphase] at hprogress
      exact .pause h.once (hprogress.mono (by omega))
  | stop =>
      cases hphase : s.phase <;> simp only [Loop.step, hphase, reduceCtorEq] at hstep
      all_goals
        cases hstep
        exact ⟨h.once.of_starts rfl, trivial⟩

theorem Loop.Invariant.init (e : CronExpr) (time : Reading) : (cron e time).init.Invariant e where
  once := ⟨.nil, List.forall_mem_nil _, List.forall_mem_nil _⟩
  progress := List.forall_mem_nil _

/-- However long the tasks and the sleeps take, no minute is served twice, and none too early. -/
theorem oncePerMinute (e : CronExpr) (time : Reading) (run : List LoopStep) :
    (cron e time).Throughout (Loop.OncePerMinute e) (cron e time).init run := by
  apply TransitionSystem.throughout_of_along (C := fun _ _ => True) (I := Loop.Invariant e)
  · exact fun s h => h.once
  · intro s a s' h _ hstep
    exact Loop.Invariant.step h hstep
  · exact Loop.Invariant.init e time
  · exact TransitionSystem.along_of_forall (fun _ _ => trivial) _ _

end Rszero.Cron
