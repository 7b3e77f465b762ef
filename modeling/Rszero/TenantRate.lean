import Rszero.FixedWindow
import Rszero.TenantScope

/-!
# The quota of requests

`TenantRateLimiter` counts the requests of a tenant in windows of a minute, which begin with a
request. Requests with and without the token of the operator count, whatever they then ask for.
-/

namespace Rszero.TenantManagement

open CallProgram FixedWindow

/-- `Duration::from_secs(60)` -/
def minute : ℕ := 60000000000

/-- When the limiter let requests of a tenant pass, and when it refused them. -/
structure Meter where
  passed : List ℕ
  refused : List ℕ

def Meter.note (meter : Meter) (now : ℕ) (allowed : Bool) : Meter :=
  if allowed then { meter with passed := now :: meter.passed }
  else { meter with refused := now :: meter.refused }

def noteCheck (meters : ℤ → Meter) (s : Service) (a : Platform.Label Request Choice ℕ)
    (_ : Service) : ℤ → Meter :=
  match a with
  | .call i _ =>
      match (s.tasks i).map Platform.Task.rest with
      | some (.call (.check id quota) _) =>
          Function.update meters id
            ((meters id).note s.shared.now (checkQuota s.shared.windows s.shared.now id quota).1)
      | _ => meters
  | _ => meters

def metered (stamp : ℤ) :
    TransitionSystem (Service × (ℤ → Meter)) (Platform.Label Request Choice ℕ) :=
  (service stamp).system.observe (fun _ => ⟨[], []⟩) noteCheck

/-- The window counts requests that have passed, and no request was refused without as many in the
minute before it as the quota allows. -/
structure Obeys (q now : ℕ) (meter : Meter) (start : ℕ) (window : RateWindow) : Prop where
  started : start ≤ now
  ends : window.reset_at = start + minute
  counted : Counted minute q meter.passed start window.count
  past : ∀ t ∈ meter.passed, t ≤ now
  refused : ∀ t ∈ meter.refused, q ≤ lately minute t meter.passed

section Obeys

variable {q now start : ℕ} {meter : Meter} {window : RateWindow}

theorem obeys_fresh (q now : ℕ) : Obeys q now ⟨[], []⟩ now (.fresh now) where
  started := Nat.le_refl now
  ends := rfl
  counted := counted_nil minute q now
  past := by simp
  refused := by simp

theorem Obeys.later (h : Obeys q now meter start window) (d : ℕ) :
    Obeys q (now + d) meter start window where
  started := Nat.le_add_right_of_le h.started
  ends := h.ends
  counted := h.counted
  past t ht := Nat.le_add_right_of_le (h.past t ht)
  refused := h.refused

theorem Obeys.renew (h : Obeys q now meter start window) (hnow : window.reset_at < now) :
    Obeys q now meter now (.fresh now) where
  started := Nat.le_refl now
  ends := rfl
  counted := h.counted.renew (h.ends ▸ hnow)
  past := h.past
  refused := h.refused

theorem Obeys.pass (h : Obeys q now meter start window) (hnow : now ≤ window.reset_at)
    (hcount : window.count < q) (hfirst : window.count = 0 → now = start) :
    Obeys q now (meter.note now true) start { window with count := window.count + 1 } where
  started := h.started
  ends := h.ends
  counted := h.counted.admit h.started (h.ends ▸ hnow) hcount hfirst
  past := List.forall_mem_cons.2 ⟨Nat.le_refl now, h.past⟩
  refused t ht := Nat.le_trans (h.refused t ht) (lately_cons ..)

theorem Obeys.refuse (h : Obeys q now meter start window) (hnow : now ≤ window.reset_at)
    (hcount : q ≤ window.count) : Obeys q now (meter.note now false) start window where
  started := h.started
  ends := h.ends
  counted := h.counted
  past := h.past
  refused := List.forall_mem_cons.2
    ⟨Nat.le_trans hcount (h.counted.count_le_lately h.past (h.ends ▸ hnow)), h.refused⟩

/-- The window that a request falls into has not ended, and is new or has let a request pass. -/
theorem obeys_current {window : Option RateWindow} (hnone : window = none → meter = ⟨[], []⟩)
    (hsome : ∀ w, window = some w → ∃ start, Obeys q now meter start w ∧ (w.count = 0 → q = 0)) :
    ∃ start, Obeys q now meter start (RateWindow.current window now) ∧
      now ≤ (RateWindow.current window now).reset_at ∧
      ((RateWindow.current window now).count = 0 → q = 0 ∨ now = start) := by
  unfold RateWindow.current
  cases window with
  | none =>
      have hend : ¬ now > (RateWindow.fresh now).reset_at := by
        simp only [RateWindow.fresh]
        omega
      rw [hnone rfl, Option.getD_none, if_neg hend]
      exact ⟨now, obeys_fresh q now, Nat.not_lt.1 hend, fun _ => .inr rfl⟩
  | some w =>
      obtain ⟨start, h, hcount⟩ := hsome w rfl
      simp only [Option.getD_some]
      split_ifs with hend
      · exact ⟨now, h.renew hend, Nat.le_add_right .., fun _ => .inr rfl⟩
      · exact ⟨start, h, Nat.not_lt.1 hend, fun hzero => .inl (hcount hzero)⟩

theorem obeys_check {window : Option RateWindow} {quota : ℤ}
    (hnone : window = none → meter = ⟨[], []⟩)
    (hsome : ∀ w, window = some w →
      ∃ start, Obeys (asU32 quota) now meter start w ∧ (w.count = 0 → asU32 quota = 0)) :
    ∃ start, Obeys (asU32 quota) now (meter.note now (RateWindow.check window now quota).1) start
        (RateWindow.check window now quota).2 ∧
      ((RateWindow.check window now quota).2.count = 0 → asU32 quota = 0) := by
  obtain ⟨start, h, hnow, hfirst⟩ := obeys_current hnone hsome
  refine ⟨start, ?_⟩
  simp only [RateWindow.check]
  split_ifs with hfull
  · exact ⟨h.refuse hnow hfull,
      fun hzero => Nat.eq_zero_of_le_zero (Nat.le_trans hfull (Nat.le_of_eq hzero))⟩
  · have hcount := Nat.not_le.1 hfull
    refine ⟨h.pass hnow hcount (fun hzero => ?_), nofun⟩
    rcases hfirst hzero with hquota | hstart
    · omega
    · exact hstart

end Obeys

def Found (past : Past) (tenant : TenantContext) : Prop :=
  ∃ slug, ⟨.sql (.activeTenant slug), .ok (some tenant)⟩ ∈ past

def Quoted (past : Past) (e : Sigma Call.Answer) : Prop :=
  ∀ id quota, e.1 = .check id quota →
    ∃ tenant, Found past tenant ∧ tenant.tenant_id = id ∧ tenant.quota_rpm = quota

theorem abides_quoted (st : Statement) : Abides (fun _ => True) Quoted (query st) :=
  abides_query (fun _ _ _ => trivial) (fun _ _ _ => nofun)

theorem serve_quoted (req : Request) :
    (serve req).Ensures (fun _ => True) Quoted (fun _ _ => True) [] := by
  unfold serve
  cases req.tenant with
  | none => trivial
  | some slug =>
      intro row _
      refine ⟨nofun, ?_⟩
      match row with
      | .error e => trivial
      | .ok none => trivial
      | .ok (some tenant) =>
          intro allowed _
          refine ⟨fun id quota heq => ?_, ?_⟩
          · cases heq
            exact ⟨tenant, ⟨slug, List.mem_singleton_self _⟩, rfl, rfl⟩
          · cases allowed with
            | true =>
                refine abides_inner (fun _ st _ => abides_quoted st) (abides_quoted .one)
                  (fun _ st _ _ => abides_quoted st) (fun _ create => ?_) _ trivial
                exact UserService.abides_create (fun st _ => abides_quoted st) create
            | false => trivial

def Tables.Priced (db : Tables) (tenant : TenantContext) : Prop :=
  ∃ r ∈ db.tenants, r.id = tenant.tenant_id ∧ r.max_rpm = tenant.quota_rpm

theorem set_max_rpm (r : TenantRow) (column : TenantColumn) :
    (column.set r).max_rpm = r.max_rpm := by
  cases column <;> rfl

theorem Tables.Priced.write {db db' : Tables} {st : Statement} {tenant : TenantContext}
    (h : db.Priced tenant) (hwrite : db.Write st db') : db'.Priced tenant := by
  refine exists_row_write (fun r column hrow => ?_) h hwrite
  rwa [set_id, set_max_rpm]

theorem priced_of_run {db db' : Tables} {x : Choice} {slug : String} {tenant : TenantContext}
    (h : db.run x (.activeTenant slug) = some (.ok (some tenant), db')) : db.Priced tenant := by
  obtain ⟨r, hr, rfl⟩ := Option.map_eq_some_iff.1 (activeTenant_of_run h)
  exact ⟨r, List.mem_of_find?_eq_some hr, rfl, rfl⟩

/-- Who was found has a row with the quota that was read. -/
def Charged (s : Service) : Prop :=
  ∀ i task, s.tasks i = some task → ∀ tenant, Found task.past tenant →
    s.shared.tables.Priced tenant

section Charged

variable {s s' : Service} {stamp : ℤ} {i : ℕ} {task : Task}

theorem Charged.put (h : Charged s)
    (htask : ∀ tenant, Found task.past tenant → s.shared.tables.Priced tenant) :
    Charged (s.put i task) := Platform.forall_put h htask

theorem Charged.call (h : Charged s) (ht : s.tasks i = some task) {x : Choice} {call : Call}
    {ans : call.Answer} {shared : Server} (hp : s.shared.perform x call = some (ans, shared)) :
    (∀ tenant, s.shared.tables.Priced tenant → shared.tables.Priced tenant) ∧
      ∀ tenant, Found (task.past ++ [⟨call, ans⟩]) tenant → shared.tables.Priced tenant := by
  cases call with
  | check id quota =>
      cases hp
      refine ⟨fun _ hpriced => hpriced, fun tenant hfound => ?_⟩
      obtain ⟨slug, hmem⟩ := hfound
      exact h i task ht tenant ⟨slug, by simpa using hmem⟩
  | sql st =>
      obtain ⟨⟨result, db⟩, hrun, hr⟩ := Option.map_eq_some_iff.1 hp
      cases hr
      have hwrite := write_of_run hrun
      refine ⟨fun _ hpriced => hpriced.write hwrite, fun tenant hfound => ?_⟩
      obtain ⟨slug, hmem⟩ := hfound
      rcases List.mem_append.1 hmem with hmem | hmem
      · exact (h i task ht tenant ⟨slug, hmem⟩).write hwrite
      · cases List.mem_singleton.1 hmem
        exact (priced_of_run hrun).write hwrite

theorem Charged.step {a : Platform.Label Request Choice ℕ} (h : Charged s)
    (hstep : (service stamp).system.step s a = some s') : Charged s' := by
  cases Platform.next_move hstep with
  | spawn ht =>
      refine h.put (fun tenant hfound => ?_)
      obtain ⟨slug, hmem⟩ := hfound
      cases hmem
  | @call i x task call rest ans shared ht hlive hrest hp =>
      obtain ⟨hpriced, hfound⟩ := h.call ht hp
      have hshared : Charged { s with shared := shared } :=
        fun j task' hj tenant htenant => hpriced tenant (h j task' hj tenant htenant)
      exact hshared.put hfound
  | @cut i task ht => exact h.put (h i task ht)
  | env he =>
      cases he
      exact h

/-- A check is with the quota of the row of its tenant. -/
theorem Charged.quota_eq (h : Charged s) (hs : Serving s) (ht : s.tasks i = some task)
    {id quota : ℤ} {rest : Bool → Program Response}
    (hrest : task.rest = .call (.check id quota) rest) :
    ∃ r ∈ s.shared.tables.tenants, r.id = id ∧ r.max_rpm = quota := by
  have hquoted := (hs.reaches i task ht).ensures (serve_quoted task.request) (fun _ _ => trivial)
  rw [hrest] at hquoted
  obtain ⟨tenant, hfound, rfl, rfl⟩ := (hquoted true trivial).1 id quota rfl
  exact h i task ht tenant hfound

end Charged

section Runs

variable {stamp : ℤ} {x y : Service × (ℤ → Meter)} {s s' : Service} {meters : ℤ → Meter}

structure Limited (x : Service × (ℤ → Meter)) : Prop where
  serving : Serving x.1
  charged : Charged x.1
  silent : ∀ id, x.1.shared.windows id = none → x.2 id = ⟨[], []⟩
  obeys : ∀ r ∈ x.1.shared.tables.tenants, ∀ window, x.1.shared.windows r.id = some window →
    ∃ start, Obeys (asU32 r.max_rpm) x.1.shared.now (x.2 r.id) start window ∧
      (window.count = 0 → asU32 r.max_rpm = 0)

theorem noteCheck_check {i : ℕ} {task : Task} {choice : Choice} {id quota : ℤ}
    {rest : Bool → Program Response} (ht : s.tasks i = some task)
    (hrest : task.rest = .call (.check id quota) rest) :
    noteCheck meters s (.call i choice) s' = Function.update meters id
      ((meters id).note s.shared.now (checkQuota s.shared.windows s.shared.now id quota).1) := by
  simp only [noteCheck, ht, Option.map_some, hrest]

theorem noteCheck_sql {i : ℕ} {task : Task} {choice : Choice} {st : Statement}
    {rest : Except String st.Result → Program Response} (ht : s.tasks i = some task)
    (hrest : task.rest = .call (.sql st) rest) :
    noteCheck meters s (.call i choice) s' = meters := by
  simp only [noteCheck, ht, Option.map_some, hrest]

/-- What a statement leaves of the limiter. -/
theorem Limited.sql (h : Limited x) {choice : Choice} {st : Statement}
    {ans : Except String st.Result} {shared : Server}
    (hp : x.1.shared.perform choice (.sql st) = some (ans, shared)) :
    (∀ id, shared.windows id = none → x.2 id = ⟨[], []⟩) ∧
      ∀ r ∈ shared.tables.tenants, ∀ window, shared.windows r.id = some window →
        ∃ start, Obeys (asU32 r.max_rpm) shared.now (x.2 r.id) start window ∧
          (window.count = 0 → asU32 r.max_rpm = 0) := by
  have hrows {r : TenantRow} := tenant_of_perform hp (r := r)
  obtain ⟨⟨result, db⟩, hrun, hr⟩ := Option.map_eq_some_iff.1 hp
  cases hr
  refine ⟨h.silent, fun r hr window hwindow => ?_⟩
  rcases hrows hr with ⟨r₀, hr₀, hid, -, hrpm⟩ | ⟨hid, -⟩
  · rw [hid] at hwindow ⊢
    rw [hrpm]
    exact h.obeys r₀ hr₀ window hwindow
  · have hseen : x.1.shared.windows r.id = some window := hwindow
    obtain ⟨r₀, hr₀, heq⟩ := h.serving.windows r.id (by simp [hseen])
    have hle := h.serving.tables.upto r₀ hr₀
    omega

/-- What a check leaves of the limiter. -/
theorem Limited.check (h : Limited x) {id quota : ℤ}
    (hquota : ∃ r ∈ x.1.shared.tables.tenants, r.id = id ∧ r.max_rpm = quota) :
    let checked := checkQuota x.1.shared.windows x.1.shared.now id quota
    let meters := Function.update x.2 id ((x.2 id).note x.1.shared.now checked.1)
    (∀ id, checked.2 id = none → meters id = ⟨[], []⟩) ∧
      ∀ r ∈ x.1.shared.tables.tenants, ∀ window, checked.2 r.id = some window →
        ∃ start, Obeys (asU32 r.max_rpm) x.1.shared.now (meters r.id) start window ∧
          (window.count = 0 → asU32 r.max_rpm = 0) := by
  obtain ⟨r, hr, rfl, rfl⟩ := hquota
  simp only [checkQuota]
  constructor
  · intro id hid
    by_cases heq : id = r.id
    · rw [heq, Function.update_self] at hid
      cases hid
    · rw [Function.update_of_ne heq] at hid ⊢
      exact h.silent id hid
  · intro r' hr' window hwindow
    by_cases heq : r'.id = r.id
    · rw [h.serving.tables.ids r' hr' r hr heq] at hwindow ⊢
      rw [Function.update_self] at hwindow ⊢
      obtain rfl := Option.some.inj hwindow
      exact obeys_check (h.silent r.id) (h.obeys r hr)
    · rw [Function.update_of_ne heq] at hwindow ⊢
      exact h.obeys r' hr' window hwindow

theorem Limited.step {a : Platform.Label Request Choice ℕ} (h : Limited x)
    (hstep : (metered stamp).step x a = some y) : Limited y := by
  obtain ⟨s', hs', rfl⟩ := TransitionSystem.exists_of_observe_step hstep
  have hserving := h.serving.step hs'
  have hcharged := h.charged.step hs'
  cases Platform.next_move hs' with
  | spawn ht => exact ⟨hserving, hcharged, h.silent, h.obeys⟩
  | @call i choice task call rest ans shared ht hlive hrest hp =>
      cases call with
      | check id quota =>
          rw [noteCheck_check ht hrest] at *
          cases hp
          obtain ⟨hsilent, hobeys⟩ := h.check (h.charged.quota_eq h.serving ht hrest)
          exact ⟨hserving, hcharged, hsilent, hobeys⟩
      | sql st =>
          obtain ⟨hsilent, hobeys⟩ := h.sql hp
          rw [noteCheck_sql ht hrest]
          exact ⟨hserving, hcharged, hsilent, hobeys⟩
  | cut ht => exact ⟨hserving, hcharged, h.silent, h.obeys⟩
  | @env d shared he =>
      cases he
      refine ⟨hserving, hcharged, h.silent, fun r hr window hwindow => ?_⟩
      obtain ⟨start, hobeys, hcount⟩ := h.obeys r hr window hwindow
      exact ⟨start, hobeys.later d, hcount⟩

theorem limited_init (stamp : ℤ) : Limited (metered stamp).init where
  serving := serving_init stamp
  charged := by
    intro i task ht
    cases ht
  silent _ _ := rfl
  obeys := by
    intro r hr window hwindow
    cases hwindow

/-- In any minute less than twice as many requests of a tenant pass as its quota allows, and a
request is refused only if as many have passed in the minute before it. -/
theorem passes_within_quota {run : List (Platform.Label Request Choice ℕ)}
    (he : (metered stamp).exec (metered stamp).init run = some (s, meters)) {r : TenantRow}
    (hr : r ∈ s.shared.tables.tenants) :
    (∀ t, within minute t (meters r.id).passed ≤ 2 * asU32 r.max_rpm - 1) ∧
      ∀ t ∈ (meters r.id).refused, asU32 r.max_rpm ≤ lately minute t (meters r.id).passed := by
  have h : Limited (s, meters) :=
    (metered stamp).exec_invariant (fun _ _ _ h hstep => h.step hstep) (limited_init stamp) he
  cases hwindow : s.shared.windows r.id with
  | none =>
      have hsilent : meters r.id = ⟨[], []⟩ := h.silent r.id hwindow
      rw [hsilent]
      exact ⟨fun _ => Nat.zero_le _, fun _ ht => by cases ht⟩
  | some window =>
      obtain ⟨start, hobeys, -⟩ := h.obeys r hr window hwindow
      exact ⟨hobeys.counted.spread, hobeys.refused⟩

end Runs

def visit (i : ℕ) : List (Platform.Label Request Choice ℕ) :=
  .spawn i ⟨some "acme", none, .listUsers⟩ :: List.replicate 2 (.call i ⟨none, "", 0, 0⟩)

/-- The first window is filled as it ends, and the second as it begins. -/
def straddle : List (Platform.Label Request Choice ℕ) :=
  visit 0 ++ .env minute :: (List.range' 1 99).flatMap visit ++
    .env 1 :: (List.range' 100 101).flatMap visit

theorem passes_within_quota_straddle :
    ∃ (s : Service) (meters : ℤ → Meter) (r : TenantRow), r ∈ s.shared.tables.tenants ∧
      r.max_rpm = 100 ∧ within minute 1 (meters r.id).passed = 199 ∧
      (meters r.id).refused = [minute + 1] ∧
      (∀ t, within minute t (meters r.id).passed ≤ 2 * asU32 r.max_rpm - 1) ∧
      ∀ t ∈ (meters r.id).refused, asU32 r.max_rpm ≤ lately minute t (meters r.id).passed := by
  obtain ⟨⟨s, meters⟩, he, hp⟩ := (metered 0).exists_exec (s := (metered 0).init) (r := straddle)
    (p := fun x => x.1.shared.tables.tenants.any (fun r => r.max_rpm = 100 ∧
      within minute 1 (x.2 r.id).passed = 199 ∧ (x.2 r.id).refused = [minute + 1]))
    (by decide +kernel)
  obtain ⟨r, hr, hmeter⟩ := List.any_eq_true.1 hp
  obtain ⟨hmax, hpassed, hrefused⟩ := of_decide_eq_true hmeter
  exact ⟨s, meters, r, hr, hmax, hpassed, hrefused, passes_within_quota he hr⟩

end Rszero.TenantManagement
