import Rszero.RedisLock

/-!
# A lock with automatic refresh

One call of `with_lock_auto_refresh` among other clients, whose tokens are other ones. The refresh
loop ticks when its task starts and after every interval; a tick sends the script at once, and the
clock does not pass an instant at which a tick is due. An interval of zero makes the task panic. The
loop ends at the first answer that is not `1`, be it an error.
-/

namespace Rszero.RedisLock

open ExpiringKeys

structure AutoRefresh where
  resource : String
  value : String
  ttl : ℕ
  refresh_interval : ℕ

inductive Loop
  | waiting (due : ℕ)
  | ended
  deriving DecidableEq

/-- The call before it has the lock, while `f` runs, and when `f` has completed or there was no lock
to have. -/
inductive Call
  | before
  | running (loop : Loop)
  | completed
  deriving DecidableEq

inductive RefreshLabel
  | elapse (d : ℕ)
  | acquire
  | tick (answer : Answer)
  | complete
  | other (a : Label)

/-- What other clients do does not move the clock and does not use the token of the call. -/
def Label.foreign (value : String) : Label → Bool
  | .elapse _ => false
  | .tryAcquire _ _ value' _ _ => value' ≠ value
  | .execute issued _ => issued.script.value ≠ value
  | _ => true

namespace AutoRefresh

/-- `tokio::time::interval(refresh_interval)` -/
def interval (cfg : AutoRefresh) (now : ℕ) : Loop :=
  if cfg.refresh_interval = 0 then .ended else .waiting now

def script (cfg : AutoRefresh) : Script :=
  .refresh (lockKey cfg.resource) cfg.value (asSecs cfg.ttl)

def round (cfg : AutoRefresh) (s : State) (due : ℕ) (answer : Answer) : State × Call :=
  match answer, cfg.script.eval s.now s.store with
  | .answered, some store =>
      ({ s with store := store }, .running (.waiting (due + cfg.refresh_interval)))
  | .lost, some store => ({ s with store := store }, .running .ended)
  | _, _ => (s, .running .ended)

def next (cfg : AutoRefresh) (x : State × Call) : RefreshLabel → Option (State × Call)
  | .elapse d =>
      match x.2 with
      | .running (.waiting due) =>
          if x.1.now + d ≤ due then some ({ x.1 with now := x.1.now + d }, x.2) else none
      | _ => some ({ x.1 with now := x.1.now + d }, x.2)
  | .acquire =>
      if x.2 = .before then
        match setLock x.1.store x.1.now cfg.resource cfg.value cfg.ttl with
        | some store => some ({ x.1 with store := store }, .running (cfg.interval x.1.now))
        | none => some (x.1, .completed)
      else none
  | .tick answer =>
      match x.2 with
      | .running (.waiting due) => if due = x.1.now then some (cfg.round x.1 due answer) else none
      | _ => none
  | .complete =>
      match x.2 with
      | .running _ => some (x.1, .completed)
      | _ => none
  | .other a =>
      if a.foreign cfg.value then (system.step x.1 a).map (fun s => (s, x.2)) else none

def system (cfg : AutoRefresh) : TransitionSystem (State × Call) RefreshLabel where
  init := (RedisLock.system.init, .before)
  step := cfg.next

/-- `SET` and the refreshes that Redis executes renew the lock. -/
def renewal (renewed : ℕ) (x : State × Call) : RefreshLabel → ℕ
  | .acquire => x.1.now
  | .tick answer => if answer = .failed then renewed else x.1.now
  | _ => renewed

def renewing (cfg : AutoRefresh) : TransitionSystem ((State × Call) × ℕ) RefreshLabel :=
  cfg.system.observe 0 (fun renewed x a _ => renewal renewed x a)

/-- While `f` runs the token of the call is stored under the resource, and no other client gets the
lock. -/
def Covered (cfg : AutoRefresh) (y : (State × Call) × ℕ) : Prop :=
  ∀ loop, y.1.2 = .running loop →
    owned y.1.1.store y.1.1.now (lockKey cfg.resource) cfg.value ∧
      ∀ value ttl, setLock y.1.1.store y.1.1.now cfg.resource value ttl = none

/-- When the refresh loop is over and `f` still runs, the clock does not get to where the TTL since
the last renewal has passed. -/
def WithinTtl (cfg : AutoRefresh) (y : (State × Call) × ℕ) (a : RefreshLabel) : Prop :=
  y.1.2 = .running .ended → ∀ d, a = .elapse d → y.1.1.now + d < y.2 + cfg.ttl

structure Renewed (cfg : AutoRefresh) (y : (State × Call) × ℕ) : Prop where
  stored : ∀ loop, y.1.2 = .running loop →
    live y.1.1.store y.1.1.now (lockKey cfg.resource) = some ⟨cfg.value, y.2 + cfg.ttl⟩
  due : ∀ due, y.1.2 = .running (.waiting due) →
    y.1.1.now ≤ due ∧ due ≤ y.2 + cfg.refresh_interval

section Steps

variable {cfg : AutoRefresh} {s s' : State} {call : Call} {renewed : ℕ}

theorem nanos_asSecs {secs ttl : ℕ} (h : ttl = nanos secs) : nanos (asSecs ttl) = ttl := by
  subst h
  simp [nanos, asSecs]

theorem live_of_setLock {store store' : Store String String} {now ttl : ℕ} {resource value : String}
    (hpos : 0 < nanos (asSecs ttl)) (h : setLock store now resource value ttl = some store') :
    live store' now (lockKey resource) = some ⟨value, now + nanos (asSecs ttl)⟩ := by
  obtain ⟨secs, hsecs, hset⟩ := Option.bind_eq_some_iff.1 h
  have heq : asSecs ttl = secs := by
    unfold expiration at hsecs
    split_ifs at hsecs
    exact Option.some.inj hsecs
  rw [heq] at hpos ⊢
  exact live_setIfAbsent_self hpos hset

theorem setLock_eq_none {store : Store String String} {now : ℕ} {resource : String}
    {entry : Entry String} (h : live store now (lockKey resource) = some entry) (value : String)
    (ttl : ℕ) : setLock store now resource value ttl = none := by
  unfold setLock
  cases expiration ttl with
  | none => rfl
  | some secs => simp [setIfAbsent, h]

/-- What other clients do leaves the lock alone. -/
theorem live_of_foreign {a : Label} {key value : String} {expiresAt now : ℕ}
    {store : Store String String} (ha : a.foreign value) (he : Effect s a store now)
    (h : live s.store s.now key = some ⟨value, expiresAt⟩) :
    live store now key = some ⟨value, expiresAt⟩ ∧ now = s.now := by
  cases he with
  | elapse d => cases ha
  | evict key' =>
      rw [live_evict]
      exact ⟨h, rfl⟩
  | acquired hanswer hset =>
      obtain ⟨secs, -, hset⟩ := Option.bind_eq_some_iff.1 hset
      exact ⟨live_setIfAbsent h hset, rfl⟩
  | evaluated hanswer heval =>
      exact ⟨live_of_eval h (of_decide_eq_true ha) heval, rfl⟩
  | refused | unanswered | release | refresh | startRefresh | tick | abort | drop =>
      exact ⟨h, rfl⟩

theorem Renewed.covered {y : (State × Call) × ℕ} (h : Renewed cfg y) : Covered cfg y := by
  intro loop hrunning
  have hlive := h.stored loop hrunning
  exact ⟨owned_iff.2 ⟨_, hlive⟩, setLock_eq_none hlive⟩

theorem Renewed.elapse (h : Renewed cfg ((s, call), renewed)) (d : ℕ)
    (hd : ∀ loop, call = .running loop → s.now + d < renewed + cfg.ttl)
    (hdue : ∀ due, call = .running (.waiting due) → s.now + d ≤ due) :
    Renewed cfg (({ s with now := s.now + d }, call), renewed) where
  stored := by
    intro loop hrunning
    obtain ⟨hentry, -⟩ := live_eq_some_iff.1 (h.stored loop hrunning)
    exact live_eq_some_iff.2 ⟨hentry, hd loop hrunning⟩
  due := fun due hrunning => ⟨hdue due hrunning, (h.due due hrunning).2⟩

/-- A round that Redis executes renews the lock. -/
theorem eval_script (hsecs : nanos (asSecs cfg.ttl) = cfg.ttl) (hpos : 0 < cfg.ttl) {expiresAt : ℕ}
    (h : live s.store s.now (lockKey cfg.resource) = some ⟨cfg.value, expiresAt⟩) :
    ∃ store, cfg.script.eval s.now s.store = some store ∧
      live store s.now (lockKey cfg.resource) = some ⟨cfg.value, s.now + cfg.ttl⟩ := by
  obtain ⟨store, heval, hlive⟩ := live_extendIfOwned_self hpos (owned_iff.2 ⟨_, h⟩)
  refine ⟨store, ?_, hlive⟩
  rw [script, Script.eval, hsecs]
  exact heval

theorem Renewed.round (hsecs : nanos (asSecs cfg.ttl) = cfg.ttl) (hpos : 0 < cfg.ttl) {due : ℕ}
    (h : Renewed cfg ((s, .running (.waiting due)), renewed)) (hdue : due = s.now)
    (answer : Answer) :
    Renewed cfg (cfg.round s due answer, if answer = .failed then renewed else s.now) := by
  obtain ⟨store, heval, hlive⟩ := eval_script hsecs hpos (h.stored _ rfl)
  unfold AutoRefresh.round
  rw [heval]
  cases answer with
  | answered =>
      refine ⟨fun _ _ => hlive, ?_⟩
      rintro _ ⟨⟩
      rw [hdue]
      exact ⟨Nat.le_add_right .., Nat.le_refl _⟩
  | lost => exact ⟨fun _ _ => hlive, nofun⟩
  | failed => exact ⟨fun _ _ => h.stored _ rfl, nofun⟩

theorem Renewed.acquire (hsecs : nanos (asSecs cfg.ttl) = cfg.ttl) (hpos : 0 < cfg.ttl)
    {store : Store String String}
    (hset : setLock s.store s.now cfg.resource cfg.value cfg.ttl = some store) :
    Renewed cfg (({ s with store := store }, .running (cfg.interval s.now)), s.now) where
  stored := by
    intro _ _
    have hlive := live_of_setLock (by rwa [hsecs]) hset
    rwa [hsecs] at hlive
  due := by
    intro due hrunning
    unfold interval at hrunning
    split_ifs at hrunning
    · cases hrunning
    · obtain rfl : s.now = due := Loop.waiting.inj (Call.running.inj hrunning)
      exact ⟨Nat.le_refl _, Nat.le_add_right ..⟩

theorem renewed_step (hsecs : nanos (asSecs cfg.ttl) = cfg.ttl)
    (hinterval : cfg.refresh_interval < cfg.ttl) {y : (State × Call) × ℕ} {x' : State × Call}
    {a : RefreshLabel} (h : Renewed cfg y) (hc : WithinTtl cfg y a)
    (hstep : cfg.system.step y.1 a = some x') : Renewed cfg (x', renewal y.2 y.1 a) := by
  obtain ⟨⟨s, call⟩, renewed⟩ := y
  have hpos : 0 < cfg.ttl := by omega
  change cfg.next (s, call) a = some x' at hstep
  cases a with
  | elapse d =>
      cases call with
      | before | completed =>
          cases hstep
          exact ⟨nofun, nofun⟩
      | running loop =>
          cases loop with
          | waiting due =>
              obtain ⟨hle, hstep⟩ := Option.ite_none_right_eq_some.1 hstep
              cases hstep
              have hdue : due ≤ renewed + cfg.refresh_interval := (h.due due rfl).2
              apply h.elapse d
              · intro loop _
                change s.now + d ≤ due at hle
                omega
              · rintro _ ⟨⟩
                exact hle
          | ended =>
              cases hstep
              exact h.elapse d (fun _ _ => hc rfl d rfl) nofun
  | acquire =>
      obtain ⟨hbefore, hstep⟩ := Option.ite_none_right_eq_some.1 hstep
      cases hset : setLock s.store s.now cfg.resource cfg.value cfg.ttl with
      | none =>
          rw [hset] at hstep
          cases hstep
          exact ⟨nofun, nofun⟩
      | some store =>
          rw [hset] at hstep
          cases hstep
          exact Renewed.acquire hsecs hpos hset
  | tick answer =>
      cases call with
      | before | completed => cases hstep
      | running loop =>
          cases loop with
          | waiting due =>
              obtain ⟨hdue, hstep⟩ := Option.ite_none_right_eq_some.1 hstep
              cases hstep
              exact h.round hsecs hpos hdue answer
          | ended => cases hstep
  | complete =>
      cases call with
      | before | completed => cases hstep
      | running loop =>
          cases hstep
          exact ⟨nofun, nofun⟩
  | other a =>
      obtain ⟨hforeign, hstep⟩ := Option.ite_none_right_eq_some.1 hstep
      obtain ⟨s', hs', rfl⟩ := Option.map_eq_some_iff.1 hstep
      have hlive {loop : Loop} (hrunning : call = .running loop) :=
        live_of_foreign hforeign (step_effect hs') (h.stored loop hrunning)
      refine ⟨fun loop hrunning => (hlive hrunning).1, fun due hrunning => ?_⟩
      change s'.now ≤ due ∧ _
      rw [(hlive hrunning).2]
      exact h.due due hrunning

/-- Past the TTL since the last renewal the token is no longer stored. -/
theorem not_covered_of_expired (h : Renewed cfg ((s, .running .ended), renewed)) {d : ℕ}
    (hd : renewed + cfg.ttl ≤ s.now + d) :
    ¬ Covered cfg (({ s with now := s.now + d }, .running .ended), renewed) := by
  intro hcovered
  obtain ⟨u, hlive⟩ := owned_iff.1 (hcovered .ended rfl).1
  obtain ⟨hentry, hlater⟩ := live_eq_some_iff.1 hlive
  obtain ⟨hentry', -⟩ := live_eq_some_iff.1 (h.stored .ended rfl)
  have heq := congrArg Entry.expiresAt (Option.some.inj (hentry.symm.trans hentry'))
  change u = renewed + cfg.ttl at heq
  change s.now + d < u at hlater
  omega

end Steps

/-- The lock covers `f` throughout if and only if, once the loop is over, `f` does not run until the
TTL since the last renewal has passed. -/
theorem covered_iff {cfg : AutoRefresh} {secs : ℕ} (hsecs : cfg.ttl = nanos secs)
    (hinterval : cfg.refresh_interval < cfg.ttl) {run : List RefreshLabel}
    {y : (State × Call) × ℕ} (he : cfg.renewing.exec cfg.renewing.init run = some y) :
    cfg.renewing.Throughout (Covered cfg) cfg.renewing.init run ↔
      cfg.renewing.Along (WithinTtl cfg) cfg.renewing.init run := by
  refine TransitionSystem.throughout_iff_along (fun _ h => Renewed.covered h) ?_ ?_ ?_ he
  · intro y a z h hc hstep
    obtain ⟨x', hx', rfl⟩ := TransitionSystem.exists_of_observe_step hstep
    exact renewed_step (nanos_asSecs hsecs) hinterval h hc hx'
  · rintro ⟨⟨s, call⟩, renewed⟩ a z h hc hstep
    obtain ⟨hended, hpasses⟩ := Classical.not_imp.1 hc
    obtain ⟨d, hd⟩ := not_forall.1 hpasses
    obtain ⟨rfl, hlate⟩ := Classical.not_imp.1 hd
    obtain rfl : call = .running .ended := hended
    obtain ⟨x', hx', rfl⟩ := TransitionSystem.exists_of_observe_step hstep
    cases hx'
    exact not_covered_of_expired h (Nat.le_of_not_lt hlate)
  · exact ⟨nofun, nofun⟩

def tenSeconds : AutoRefresh := ⟨"job", "a", 10000000000, 3000000000⟩

def shortClosure : List RefreshLabel :=
  [.acquire, .tick .answered, .elapse 3000000000, .tick .failed, .elapse 1000000000, .complete]

theorem covered_iff_shortClosure :
    tenSeconds.renewing.Throughout (Covered tenSeconds) tenSeconds.renewing.init shortClosure := by
  have hexec : (tenSeconds.renewing.exec tenSeconds.renewing.init shortClosure).isSome := rfl
  obtain ⟨y, hy⟩ := Option.isSome_iff_exists.1 hexec
  have hsecs : tenSeconds.ttl = nanos 10 := rfl
  apply (covered_iff hsecs (by decide) hy).2
  apply TransitionSystem.along_cons nofun rfl
  apply TransitionSystem.along_cons nofun rfl
  apply TransitionSystem.along_cons nofun rfl
  apply TransitionSystem.along_cons nofun rfl
  refine TransitionSystem.along_cons ?_ rfl ?_
  · rintro - d ⟨⟩
    exact (by decide : 4000000000 < 10000000000)
  apply TransitionSystem.along_cons (fun _ => nofun) rfl
  trivial

/-- In every window of length `ttl - refresh_interval` an attempt of the loop, had it gone on, would
be answered. -/
def Answerable (cfg : AutoRefresh) (up : ℕ → Prop) : Prop :=
  ∀ t, ∃ k, t ≤ k * cfg.refresh_interval ∧
    k * cfg.refresh_interval ≤ t + (cfg.ttl - cfg.refresh_interval) ∧ up (k * cfg.refresh_interval)

/-- Redis answers the attempts at the instants of `up`, and no others. -/
def AnswersAt (up : ℕ → Prop) (y : (State × Call) × ℕ) (a : RefreshLabel) : Prop :=
  ∀ answer, a = .tick answer → (answer = .answered ↔ up y.1.1.now)

def oneFailure : List RefreshLabel :=
  [.acquire, .tick .answered, .elapse 3000000000, .tick .failed, .elapse 7000000000]

theorem not_covered_oneFailure :
    Answerable tenSeconds (· ≠ 3000000000) ∧
      tenSeconds.renewing.Along (AnswersAt (· ≠ 3000000000)) tenSeconds.renewing.init oneFailure ∧
        ∃ y, tenSeconds.renewing.exec tenSeconds.renewing.init oneFailure = some y ∧
          ¬ Covered tenSeconds y := by
  refine ⟨?_, ?_, ?_⟩
  · intro t
    change ∃ k, t ≤ k * 3000000000 ∧ k * 3000000000 ≤ t + (10000000000 - 3000000000) ∧
      k * 3000000000 ≠ 3000000000
    by_cases ht : t = 0
    · exact ⟨0, by omega⟩
    · by_cases ht' : t ≤ 6000000000
      · exact ⟨2, by omega⟩
      · refine ⟨(t + 2999999999) / 3000000000, ?_⟩
        omega
  · apply TransitionSystem.along_cons nofun rfl
    refine TransitionSystem.along_cons ?_ rfl ?_
    · rintro _ ⟨⟩
      exact iff_of_true rfl nofun
    apply TransitionSystem.along_cons nofun rfl
    refine TransitionSystem.along_cons ?_ rfl ?_
    · rintro _ ⟨⟩
      exact iff_of_false nofun (fun h => h rfl)
    apply TransitionSystem.along_cons nofun rfl
    trivial
  · refine ⟨_, rfl, fun h => ?_⟩
    exact absurd (h .ended rfl).1 nofun

end AutoRefresh

end Rszero.RedisLock
