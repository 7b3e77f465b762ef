import Mathlib.Logic.Function.Basic
import Mathlib.Data.Nat.Notation
import Rszero.TransitionSystem

/-!
# Scheduled jobs

The tasks that `every`, `after` and `at` spawn, step by step between two points where they wait. A
timer is ready from its deadline on, and `select!` picks any branch that is ready. The interval of
`every` has its first deadline when it is created and then one in each period. All times are those
of one clock.
-/

namespace Rszero.Scheduler

inductive Kind
  | every (period : ℕ)
  | after (delay : ℕ)
  | atTime (timestamp : ℕ)

def Kind.Once (kind : Kind) : Prop := ∀ period, kind ≠ .every period

inductive Phase
  | spawned
  | delayed (delay : ℕ)
  | waiting (deadline : ℕ)
  | running (deadline : ℕ)
  | ended

/-- When the task began, and whether the token was cancelled by then. -/
structure Run where
  time : ℕ
  cancelled : Bool

structure Job where
  kind : Kind
  called : ℕ
  phase : Phase
  cancelled : Bool
  held : Bool
  runs : List Run

/-- The last two are calls of the handle. -/
inductive JobStep
  | poll
  | sleep
  | timer
  | finish
  | cancelled
  | cancel
  | drop

namespace Job

def new (kind : Kind) (now : ℕ) : Job := ⟨kind, now, .spawned, false, true, []⟩

/-- What the task does when it is polled for the first time; `interval` panics at zero. -/
def firstPhase (now : ℕ) : Kind → Phase
  | .every period => if period = 0 then .ended else .waiting now
  | .after delay => .delayed delay
  | .atTime timestamp => .delayed (timestamp - now)

def begin (job : Job) (now deadline : ℕ) : Job :=
  { job with phase := .running deadline, runs := job.runs ++ [⟨now, job.cancelled⟩] }

def nextPhase (deadline : ℕ) : Kind → Phase
  | .every period => .waiting (deadline + period)
  | _ => .ended

def step (now : ℕ) (job : Job) : JobStep → Option Job
  | .poll => match job.phase with
      | .spawned => some { job with phase := firstPhase now job.kind }
      | _ => none
  | .sleep => match job.phase with
      | .delayed delay => some { job with phase := .waiting (now + delay) }
      | _ => none
  | .timer => match job.phase with
      | .waiting deadline => if deadline ≤ now then some (job.begin now deadline) else none
      | _ => none
  | .finish => match job.phase with
      | .running deadline => some { job with phase := nextPhase deadline job.kind }
      | _ => none
  | .cancelled => match job.phase with
      | .waiting _ => if job.cancelled then some { job with phase := .ended } else none
      | _ => none
  | .cancel => if job.held then some { job with cancelled := true } else none
  | .drop => if job.held then some { job with cancelled := true, held := false } else none

/-- The time before which the run is not to begin; runs are counted from zero. -/
def earliest (job : Job) (n : ℕ) : ℕ :=
  match job.kind with
  | .every period => job.called + (n + 1) * period
  | .after delay => job.called + delay
  | .atTime timestamp => timestamp

structure Proper (job : Job) : Prop where
  inTime : ∀ n run, job.runs[n]? = some run → job.earliest n ≤ run.time
  once : job.kind.Once → job.runs.length ≤ 1
  uncancelled : ∀ run ∈ job.runs, run.cancelled = false

/-- The interval is created at least a period after the call, and the timer is not picked once the
token is cancelled. -/
def Meets (now : ℕ) (job : Job) : JobStep → Prop
  | .poll => ∀ period, job.kind = .every period → job.called + period ≤ now
  | .timer => job.cancelled = false
  | _ => True

end Job

structure State where
  now : ℕ
  jobs : ℕ → Option Job

inductive Label
  | tick (now : ℕ)
  | call (i : ℕ) (kind : Kind)
  | job (i : ℕ) (a : JobStep)

namespace State

def put (s : State) (i : ℕ) (job : Job) : State :=
  { s with jobs := Function.update s.jobs i (some job) }

def step (s : State) : Label → Option State
  | .tick now => if s.now ≤ now then some { s with now := now } else none
  | .call i kind => match s.jobs i with
      | none => some (s.put i (.new kind s.now))
      | some _ => none
  | .job i a => (s.jobs i).bind fun job => (job.step s.now a).map (s.put i)

def Proper (s : State) : Prop := ∀ i job, s.jobs i = some job → job.Proper

def Meets (s : State) : Label → Prop
  | .job i a => ∀ job, s.jobs i = some job → job.Meets s.now a
  | _ => True

end State

def system : TransitionSystem State Label where
  init := ⟨0, fun _ => none⟩
  step := State.step

variable {now now' : ℕ} {job job' : Job} {a : JobStep}

inductive Job.Move (now : ℕ) (job : Job) : JobStep → Job → Prop
  | poll (hphase : job.phase = .spawned) :
      Job.Move now job .poll { job with phase := Job.firstPhase now job.kind }
  | sleep {delay : ℕ} (hphase : job.phase = .delayed delay) :
      Job.Move now job .sleep { job with phase := .waiting (now + delay) }
  | timer {deadline : ℕ} (hphase : job.phase = .waiting deadline) (hle : deadline ≤ now) :
      Job.Move now job .timer (job.begin now deadline)
  | finish {deadline : ℕ} (hphase : job.phase = .running deadline) :
      Job.Move now job .finish { job with phase := Job.nextPhase deadline job.kind }
  | cancelled : Job.Move now job .cancelled { job with phase := .ended }
  | cancel : Job.Move now job .cancel { job with cancelled := true }
  | drop : Job.Move now job .drop { job with cancelled := true, held := false }

theorem Job.step_move (hstep : job.step now a = some job') : job.Move now a job' := by
  cases a with
  | poll =>
      cases hphase : job.phase <;> simp only [Job.step, hphase, reduceCtorEq] at hstep
      cases hstep
      exact .poll hphase
  | sleep =>
      cases hphase : job.phase <;> simp only [Job.step, hphase, reduceCtorEq] at hstep
      cases hstep
      exact .sleep hphase
  | timer =>
      cases hphase : job.phase <;> simp only [Job.step, hphase, reduceCtorEq] at hstep
      split_ifs at hstep with hle
      cases hstep
      exact .timer hphase hle
  | finish =>
      cases hphase : job.phase <;> simp only [Job.step, hphase, reduceCtorEq] at hstep
      cases hstep
      exact .finish hphase
  | cancelled =>
      cases hphase : job.phase <;> simp only [Job.step, hphase, reduceCtorEq] at hstep
      split_ifs at hstep
      cases hstep
      exact .cancelled
  | cancel =>
      rw [Job.step] at hstep
      split_ifs at hstep
      cases hstep
      exact .cancel
  | drop =>
      rw [Job.step] at hstep
      split_ifs at hstep
      cases hstep
      exact .drop

structure Job.Called (now : ℕ) (job : Job) : Prop where
  called_le : job.called ≤ now
  unstarted : job.phase = .spawned → job.runs = []

def Job.Progress (now : ℕ) (job : Job) : Prop :=
  match job.phase with
  | .spawned => True
  | .delayed delay => job.kind.Once ∧ job.runs = [] ∧ job.earliest 0 ≤ now + delay
  | .waiting deadline => job.earliest job.runs.length ≤ deadline ∧
      (job.kind.Once → job.runs = [])
  | .running deadline => ∀ period, job.kind = .every period →
      job.earliest job.runs.length ≤ deadline + period
  | .ended => True

structure Job.Good (now : ℕ) (job : Job) : Prop extends job.Called now where
  proper : job.Proper
  progress : job.Progress now

theorem Job.Called.mono (h : job.Called now) (hle : now ≤ now') : job.Called now' :=
  ⟨Nat.le_trans h.called_le hle, h.unstarted⟩

theorem Job.Good.mono (h : job.Good now) (hle : now ≤ now') : job.Good now' where
  toCalled := h.toCalled.mono hle
  proper := h.proper
  progress := by
    have hprogress := h.progress
    unfold Job.Progress at hprogress ⊢
    split <;> rename_i hphase <;> simp only [hphase] at hprogress
    · trivial
    · obtain ⟨honce, hruns, hdelay⟩ := hprogress
      exact ⟨honce, hruns, by omega⟩
    · exact hprogress
    · exact hprogress
    · trivial

theorem Job.earliest_succ {period : ℕ} (hkind : job.kind = .every period) (n : ℕ) :
    job.earliest (n + 1) = job.earliest n + period := by
  simp only [Job.earliest, hkind]
  rw [Nat.add_mul (n + 1) 1 period, Nat.one_mul, Nat.add_assoc]

theorem Job.Called.step (h : job.Called now) (hstep : job.step now a = some job') :
    job'.Called now := by
  cases Job.step_move hstep with
  | poll hphase => exact ⟨h.called_le, fun _ => h.unstarted hphase⟩
  | sleep | timer | cancelled => exact ⟨h.called_le, nofun⟩
  | finish hphase =>
      refine ⟨h.called_le, ?_⟩
      cases job.kind <;> simp [Job.nextPhase]
  | cancel | drop => exact ⟨h.called_le, h.unstarted⟩

/-- The first poll. -/
theorem Job.Good.poll (h : job.Good now) (hphase : job.phase = .spawned)
    (hmeets : job.Meets now .poll) :
    Job.Progress now { job with phase := Job.firstPhase now job.kind } := by
  have hruns := h.unstarted hphase
  have hcalled := h.called_le
  cases hkind : job.kind with
  | every period =>
      have hperiod := hmeets period hkind
      by_cases hzero : period = 0
      · simp [Job.Progress, Job.firstPhase, hzero]
      · simp only [Job.Progress, Job.firstPhase, if_neg hzero, Job.earliest, hruns,
          List.length_nil, implies_true, and_true]
        omega
  | after delay =>
      simp only [Job.Progress, Job.firstPhase, Job.earliest]
      exact ⟨nofun, hruns, by omega⟩
  | atTime timestamp =>
      simp only [Job.Progress, Job.firstPhase, Job.earliest]
      exact ⟨nofun, hruns, by omega⟩

/-- A run begins. -/
theorem Job.Good.begin {deadline : ℕ} (h : job.Good now) (hphase : job.phase = .waiting deadline)
    (hle : deadline ≤ now) (hmeets : job.cancelled = false) :
    (job.begin now deadline).Good now := by
  have hprogress := h.progress
  simp only [Job.Progress, hphase] at hprogress
  obtain ⟨hearliest, honce⟩ := hprogress
  refine ⟨⟨h.called_le, nofun⟩, ⟨?_, ?_, ?_⟩, ?_⟩
  · intro n run hrun
    rw [Job.begin, List.getElem?_append] at hrun
    split_ifs at hrun with hn
    · exact h.proper.inTime n run hrun
    · obtain ⟨hlt, -⟩ := List.getElem?_eq_some_iff.1 hrun
      rw [List.length_singleton] at hlt
      have heq : n = job.runs.length := by omega
      rw [heq, Nat.sub_self] at hrun
      obtain rfl := Option.some.inj hrun
      rw [heq]
      exact Nat.le_trans hearliest hle
  · intro hkind
    simp [Job.begin, honce hkind]
  · rw [Job.begin, List.forall_mem_append, List.forall_mem_singleton]
    exact ⟨h.proper.uncancelled, hmeets⟩
  · intro period hkind
    have hsucc := Job.earliest_succ hkind job.runs.length
    simp only [Job.begin, List.length_append, List.length_singleton] at hsucc ⊢
    change job.earliest (job.runs.length + 1) ≤ deadline + period
    have hsucc' :
        job.earliest (job.runs.length + 1) = job.earliest job.runs.length + period := hsucc
    omega

theorem Job.Good.finish {deadline : ℕ} (h : job.Good now) (hphase : job.phase = .running deadline) :
    Job.Progress now { job with phase := Job.nextPhase deadline job.kind } := by
  have hprogress := h.progress
  simp only [Job.Progress, hphase] at hprogress
  cases hkind : job.kind with
  | every period =>
      simp only [Job.Progress, Job.nextPhase]
      refine ⟨?_, fun honce => absurd rfl (honce period)⟩
      have hnext := hprogress period hkind
      simp only [Job.earliest, hkind] at hnext ⊢
      exact hnext
  | after delay => trivial
  | atTime timestamp => trivial

/-- The sleep of `after` and `at` begins. -/
theorem Job.Good.sleep {delay : ℕ} (h : job.Good now) (hphase : job.phase = .delayed delay) :
    Job.Progress now { job with phase := .waiting (now + delay) } := by
  have hprogress := h.progress
  simp only [Job.Progress, hphase] at hprogress
  obtain ⟨-, hruns, hdelay⟩ := hprogress
  have hearliest : job.earliest job.runs.length ≤ now + delay := by rwa [hruns]
  exact ⟨hearliest, fun _ => hruns⟩

theorem Job.Good.step (h : job.Good now) (hmeets : job.Meets now a)
    (hstep : job.step now a = some job') : job'.Good now := by
  have hcalled := h.toCalled.step hstep
  obtain ⟨hinTime, honce, huncancelled⟩ := h.proper
  cases Job.step_move hstep with
  | poll hphase => exact ⟨hcalled, ⟨hinTime, honce, huncancelled⟩, h.poll hphase hmeets⟩
  | sleep hphase => exact ⟨hcalled, ⟨hinTime, honce, huncancelled⟩, h.sleep hphase⟩
  | timer hphase hle => exact h.begin hphase hle hmeets
  | finish hphase => exact ⟨hcalled, ⟨hinTime, honce, huncancelled⟩, h.finish hphase⟩
  | cancelled => exact ⟨hcalled, ⟨hinTime, honce, huncancelled⟩, trivial⟩
  | cancel | drop => exact ⟨hcalled, ⟨hinTime, honce, huncancelled⟩, h.progress⟩

variable {s s' : State} {l : Label}

def State.All (I : ℕ → Job → Prop) (s : State) : Prop := ∀ i job, s.jobs i = some job → I s.now job

theorem State.All.init (I : ℕ → Job → Prop) : system.init.All I := by
  intro i job hi
  cases hi

theorem State.put_jobs (s : State) (i : ℕ) (job : Job) : (s.put i job).jobs i = some job :=
  Function.update_self ..

theorem State.put_jobs_of_ne {i j : ℕ} (h : j ≠ i) : (s.put i job).jobs j = s.jobs j :=
  Function.update_of_ne h ..

theorem State.All.put {I : ℕ → Job → Prop} (h : s.All I) {i : ℕ} (hjob : I s.now job) :
    (s.put i job).All I := by
  intro j job' hj
  by_cases hij : j = i
  · rw [hij, State.put_jobs] at hj
    exact Option.some.inj hj ▸ hjob
  · rw [State.put_jobs_of_ne hij] at hj
    exact h j job' hj

/-- What time does not take away, what a new job has and what the steps of a job keep under `M`
holds of all jobs. -/
theorem State.All.step {I : ℕ → Job → Prop} {M : ℕ → Job → JobStep → Prop} (h : s.All I)
    (hmono : ∀ now now' job, now ≤ now' → I now job → I now' job)
    (hnew : ∀ now kind, I now (.new kind now))
    (hkeep : ∀ now job a job', I now job → M now job a → job.step now a = some job' → I now job')
    (hmeets : ∀ i a, l = .job i a → ∀ job, s.jobs i = some job → M s.now job a)
    (hstep : s.step l = some s') : s'.All I := by
  cases l with
  | tick now =>
      rw [State.step] at hstep
      split_ifs at hstep with hle
      cases hstep
      exact fun i job hi => hmono _ _ _ hle (h i job hi)
  | call i kind =>
      rw [State.step] at hstep
      split at hstep
      · cases hstep
        exact h.put (hnew s.now kind)
      · cases hstep
  | job i a =>
      rw [State.step, Option.bind_eq_some_iff] at hstep
      obtain ⟨job, hi, hstep⟩ := hstep
      obtain ⟨job', hjob', rfl⟩ := Option.map_eq_some_iff.1 hstep
      exact h.put (hkeep _ _ _ _ (h i job hi) (hmeets i a rfl job hi) hjob')

theorem Job.Called.new (now : ℕ) (kind : Kind) : (Job.new kind now).Called now :=
  ⟨Nat.le_refl now, fun _ => rfl⟩

theorem Job.Good.new (now : ℕ) (kind : Kind) : (Job.new kind now).Good now where
  toCalled := .new now kind
  proper := ⟨nofun, fun _ => Nat.zero_le 1, List.forall_mem_nil _⟩
  progress := trivial

theorem State.All.good_step (h : s.All fun now job => job.Good now) (hmeets : s.Meets l)
    (hstep : s.step l = some s') : s'.All fun now job => job.Good now := by
  apply h.step (M := fun now job a => job.Meets now a) _ Job.Good.new _ _ hstep
  · exact fun now now' job hle hjob => hjob.mono hle
  · exact fun now job a job' hjob hmeets hstep => hjob.step hmeets hstep
  · rintro i a rfl
    exact hmeets

theorem State.All.called_step (h : s.All fun now job => job.Called now)
    (hstep : s.step l = some s') : s'.All fun now job => job.Called now := by
  apply h.step (M := fun _ _ _ => True) _ Job.Called.new _ (fun _ _ _ _ _ => trivial) hstep
  · exact fun now now' job hle hjob => hjob.mono hle
  · exact fun now job a job' hjob _ hstep => hjob.step hstep

theorem State.step_timer {i deadline : ℕ} (hi : s.jobs i = some job)
    (hphase : job.phase = .waiting deadline) (hle : deadline ≤ s.now) :
    s.step (.job i .timer) = some (s.put i (job.begin s.now deadline)) := by
  simp [State.step, hi, Job.step, hphase, hle]

theorem Job.begin_run (job : Job) (now deadline : ℕ) :
    (job.begin now deadline).runs[job.runs.length]? = some ⟨now, job.cancelled⟩ := by
  simp [Job.begin]

/-- A timer that is picked after the token was cancelled begins a run. -/
theorem not_proper_timer {i : ℕ} (hi : s.jobs i = some job) (hmeets : ¬ job.cancelled = false)
    (hstep : s.step (.job i .timer) = some s') : ¬ s'.Proper := by
  intro hproper
  rw [State.step, hi, Option.bind_some] at hstep
  obtain ⟨job', hjob', rfl⟩ := Option.map_eq_some_iff.1 hstep
  cases Job.step_move hjob' with
  | @timer deadline hphase hle =>
      have hrun := List.mem_of_getElem? (job.begin_run s.now deadline)
      exact hmeets ((hproper i _ (s.put_jobs i _)).uncancelled _ hrun)

/-- When the interval is created early, its first tick is early if it is picked at once. -/
theorem not_proper_poll {i period : ℕ} (hcalled : job.Called s.now) (hi : s.jobs i = some job)
    (hkind : job.kind = .every period) (hearly : s.now < job.called + period)
    (hstep : s.step (.job i .poll) = some s') :
    ∃ t, s'.step (.job i .timer) = some t ∧ ¬ t.Proper := by
  have hperiod : ¬ period = 0 := by
    have hle := hcalled.called_le
    omega
  rw [State.step, hi, Option.bind_some] at hstep
  obtain ⟨job', hjob', rfl⟩ := Option.map_eq_some_iff.1 hstep
  obtain ⟨hphase⟩ := Job.step_move hjob'
  have hpolled := s.put_jobs i { job with phase := Job.firstPhase s.now job.kind }
  have hwaiting : Job.firstPhase s.now job.kind = .waiting s.now := by
    rw [hkind, Job.firstPhase, if_neg hperiod]
  refine ⟨_, State.step_timer hpolled hwaiting (Nat.le_refl _), ?_⟩
  intro hproper
  have hrun := Job.begin_run { job with phase := Job.firstPhase s.now job.kind } s.now s.now
  have htime := (hproper i _ (State.put_jobs ..)).inTime _ _ hrun
  simp only [Job.earliest, Job.begin, hkind, hcalled.unstarted hphase, List.length_nil,
    Nat.zero_add, Nat.one_mul] at htime
  change job.called + period ≤ s.now at htime
  omega

theorem exists_not_proper (h : s.All fun now job => job.Called now) (hmeets : ¬ s.Meets l)
    (hstep : s.step l = some s') :
    ∃ more t, system.exec s' more = some t ∧ ¬ t.Proper := by
  cases l with
  | tick => exact absurd trivial hmeets
  | call => exact absurd trivial hmeets
  | job i a =>
      obtain ⟨job, hmeets⟩ := not_forall.1 hmeets
      obtain ⟨hi, hjob⟩ := Classical.not_imp.1 hmeets
      cases a with
      | poll =>
          obtain ⟨period, hperiod⟩ := not_forall.1 hjob
          obtain ⟨hkind, hearly⟩ := Classical.not_imp.1 hperiod
          obtain ⟨t, ht, hnot⟩ :=
            not_proper_poll (h i job hi) hi hkind (Nat.lt_of_not_le hearly) hstep
          exact ⟨[.job i .timer], t, system.exec_cons_eq_some.2 ⟨t, ht, rfl⟩, hnot⟩
      | timer => exact ⟨[], s', rfl, not_proper_timer hi hjob hstep⟩
      | sleep | finish | cancelled | cancel | drop => exact absurd trivial hjob

/-- If every interval is created at least a period after the call and no timer is picked once the
token is cancelled, then all jobs run in time. After a step that violates this there is a run in
which some job does not. -/
theorem proper_of_meets (run : List Label) :
    (system.Along State.Meets system.init run →
        system.Throughout State.Proper system.init run) ∧
      ∀ s l s', system.exec system.init run = some s → ¬ s.Meets l → s.step l = some s' →
        ∃ more t, system.exec s' more = some t ∧ ¬ t.Proper := by
  constructor
  · intro hC
    have hP (s : State) (h : s.All fun now job => job.Good now) : s.Proper :=
      fun i job hi => (h i job hi).proper
    exact TransitionSystem.throughout_of_along hP
      (fun s l s' h hmeets hstep => State.All.good_step h hmeets hstep) (State.All.init _) hC
  · intro s l s' he hmeets hstep
    have hcalled : s.All fun now job => job.Called now :=
      system.exec_invariant (fun s l s' h hstep => State.All.called_step h hstep)
        (State.All.init _) he
    exact exists_not_proper hcalled hmeets hstep

/-- The runtime polls the task a minute late. -/
def lateStart : List Label :=
  [.call 0 (.every 60), .tick 60, .job 0 .poll, .job 0 .timer]

theorem proper_of_meets_lateStart : system.Throughout State.Proper system.init lateStart := by
  apply (proper_of_meets lateStart).1
  apply TransitionSystem.along_cons trivial rfl
  apply TransitionSystem.along_cons trivial rfl
  refine TransitionSystem.along_cons ?_ rfl ?_
  · rintro job ⟨⟩ period ⟨⟩
    exact Nat.le_refl 60
  refine TransitionSystem.along_cons ?_ rfl trivial
  rintro job ⟨⟩
  rfl

/-- The first tick is immediate, and a token that is cancelled does not stop a timer that is ready
too. -/
theorem not_proper :
    ¬ system.Throughout State.Proper system.init
        [.call 0 (.every 60), .job 0 .poll, .job 0 .timer] ∧
      ¬ system.Throughout State.Proper system.init
        [.call 0 (.after 60), .job 0 .poll, .job 0 .sleep, .tick 60, .job 0 .cancel,
          .job 0 .timer] := by
  constructor
  · intro h
    have hproper := h.last rfl 0 _ rfl
    exact absurd (hproper.inTime 0 _ rfl) (by decide)
  · intro h
    have hproper := h.last rfl 0 _ rfl
    exact Bool.false_ne_true (hproper.uncancelled ⟨60, true⟩ (.head _)).symm

end Rszero.Scheduler
