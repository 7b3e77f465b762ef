import Rszero.BreakerHistory
import Rszero.BreakerSteps
import Mathlib.Logic.Relation

/-!
# A call that runs alone

When no other call takes a step between its first one and its last one, and the clock stands still,
a call of the interleaved system computes the sequential function of its operation. The breaker of a
sequential run is therefore the breaker of a reachable state.
-/

namespace Rszero.Breaker

variable {T : Type} (cfg : BreakerConfig) (now : ℕ) (c : CallId)

def Alone : CircuitBreaker × Option CallId × Pc T → CircuitBreaker × Option CallId × Pc T → Prop :=
  Relation.ReflTransGen (fun x y => advance cfg now c x.1 x.2.1 x.2.2 = some y)

variable {cfg now c}

theorem Alone.head {b : CircuitBreaker} {g : Option CallId} {pc : Pc T}
    {x y : CircuitBreaker × Option CallId × Pc T}
    (h : advance cfg now c b g pc = some x) (hx : Alone cfg now c x y) :
    Alone cfg now c (b, g, pc) y :=
  Relation.ReflTransGen.head h hx

theorem Alone.one {b : CircuitBreaker} {g : Option CallId} {pc : Pc T}
    {x : CircuitBreaker × Option CallId × Pc T} (h : advance cfg now c b g pc = some x) :
    Alone cfg now c (b, g, pc) x :=
  Relation.ReflTransGen.single h

theorem alone_evaluateState (b : CircuitBreaker) (k : Caller T) :
    Alone cfg now c (b, none, .readState k)
      ((evaluateState cfg now b).2, none, resume k (evaluateState cfg now b).1) := by
  by_cases hb : b.state = .open
  · by_cases hcool : cooledDown cfg now b.openedAt
    · refine .head (x := (b, none, .readOpenedAt k)) (by simp [advance, hb]) ?_
      refine .head (x := (b, none, .lockHalfOpen k)) (by simp [advance, hcool]) ?_
      refine .head (x := ({ b with state := .halfOpen }, some c, .storeHalfOpen k))
        (by simp [advance, hb]) ?_
      exact .one (by simp [advance, evaluateState, hb, hcool])
    · refine .head (x := (b, none, .readOpenedAt k)) (by simp [advance, hb]) ?_
      exact .one (by simp [advance, evaluateState, hb, hcool])
  · exact .one (by simp [advance, evaluateState, hb])

theorem alone_settleSuccess (b : CircuitBreaker) (o : Origin T) :
    Alone cfg now c (b, none, .lockOutcome true o) (settleSuccess cfg b, none, finished o) := by
  by_cases hb : b.state = .halfOpen
  · refine .head (x := (b, some c, .fetchSuccess o)) (by simp [advance, hb]) ?_
    refine .head (x := ({ b with probeCount := fetchAdd b.probeCount }, some c,
      .compareSuccess o (fetchAdd b.probeCount))) rfl ?_
    by_cases hp : cfg.maxProbes ≤ fetchAdd b.probeCount
    · refine .head (x := ({ b with probeCount := fetchAdd b.probeCount, state := .closed }, some c,
        .storeClosed o)) (by simp [advance, hp]) ?_
      exact .one (by simp [advance, settleSuccess, hb, hp])
    · exact .one (by simp [advance, settleSuccess, hb, hp])
  · exact .one (by simp [advance, settleSuccess, hb])

theorem alone_settleFailure (b : CircuitBreaker) (o : Origin T) :
    Alone cfg now c (b, none, .lockOutcome false o)
      (settleFailure cfg now b, none, finished o) := by
  cases hb : b.state with
  | closed =>
      refine .head (x := (b, some c, .readWindow o)) (by simp [advance, hb]) ?_
      by_cases hopen : shouldOpen cfg b.window
      · refine .head (x := ({ b with state := .open }, some c, .stampOpen o false now))
          (by simp [advance, hopen]) ?_
        exact .one (by simp [advance, settleFailure, hb, hopen])
      · exact .one (by simp [advance, settleFailure, hb, hopen])
  | halfOpen =>
      refine .head (x := ({ b with state := .open }, some c, .stampOpen o true now))
        (by simp [advance, hb]) ?_
      refine .head (x := ({ b with state := .open, openedAt := some now }, some c, .storeOpen o))
        rfl ?_
      exact .one (by simp [advance, settleFailure, hb])
  | «open» => exact .one (by simp [advance, settleFailure, hb])

/-- What follows the answer of `evaluate_state` in `record_success` and `record_failure`. -/
theorem alone_append (ok : Bool) (b : CircuitBreaker) (o : Origin T) :
    Alone cfg now c (b, none, .appendWindow ok o)
      (addTotal ok (appendWindow cfg now ok b), none, .lockOutcome ok o) :=
  .head (x := (appendWindow cfg now ok b, none, .addTotal ok o)) rfl (.one rfl)

theorem alone_recordSuccess (b : CircuitBreaker) (o : Origin T) :
    Alone cfg now c (b, none, .readState (.record true o))
      (recordSuccess cfg now b, none, finished o) :=
  ((alone_evaluateState b (.record true o)).trans (alone_append true _ o)).trans
    (alone_settleSuccess _ o)

theorem alone_recordFailure (b : CircuitBreaker) (o : Origin T) :
    Alone cfg now c (b, none, .readState (.record false o))
      (recordFailure cfg now b, none, finished o) :=
  ((alone_evaluateState b (.record false o)).trans (alone_append false _ o)).trans
    (alone_settleFailure _ o)

theorem alone_reset (b : CircuitBreaker) :
    Alone cfg now c (b, none, (.lockReset : Pc T)) (reset b, none, .returned .unit) := by
  refine .head (x := ({ b with state := .closed }, some c, .clearOpenedAt)) (by simp [advance]) ?_
  refine .head (x := ({ b with state := .closed, openedAt := none }, some c, .clearWindow)) rfl ?_
  refine .head (x := ({ b with state := .closed, openedAt := none, window := [] }, some c,
    .storeReset)) rfl ?_
  exact .one rfl

/-- The sequential meaning of a request: its result and the cells it leaves behind. A call of
`execute` is not one block, since it awaits its future. -/
def sequential (cfg : BreakerConfig) (now : ℕ) (b : CircuitBreaker) :
    Request → Option (Output T × CircuitBreaker)
  | .execute => none
  | .recordSuccess => some (.unit, recordSuccess cfg now b)
  | .recordFailure => some (.unit, recordFailure cfg now b)
  | .isOpen => some (.bool (isOpen cfg now b).1, (isOpen cfg now b).2)
  | .isClosed => some (.bool (isClosed cfg now b).1, (isClosed cfg now b).2)
  | .reset => some (.unit, reset b)

theorem alone_sequential {b b' : CircuitBreaker} {q : Request} {r : Output T}
    (h : sequential cfg now b q = some (r, b')) :
    Alone cfg now c (b, none, entry q) (b', none, .returned r) := by
  cases q with
  | execute => cases h
  | recordSuccess =>
      cases h
      exact alone_recordSuccess b .direct
  | recordFailure =>
      cases h
      exact alone_recordFailure b .direct
  | isOpen =>
      cases h
      exact alone_evaluateState b .isOpen
  | isClosed =>
      cases h
      exact alone_evaluateState b .isClosed
  | reset =>
      cases h
      exact alone_reset b

theorem exec_of_alone {s : State T} {y : CircuitBreaker × Option CallId × Pc T}
    (h : Alone cfg s.now c (s.cells, s.guard, s.calls c) y) :
    ∃ n, (system T cfg).exec s (List.replicate n (.step c)) =
      some ({ s with cells := y.1, guard := y.2.1 }.put c y.2.2) := by
  generalize hx : (s.cells, s.guard, s.calls c) = x at h
  generalize hnow : s.now = t at h
  induction h using Relation.ReflTransGen.head_induction_on generalizing s with
  | refl =>
      subst hx hnow
      exact ⟨0, by simp [State.put]⟩
  | @head x z hxz _ ih =>
      subst hx hnow
      let s' : State T := { s with cells := z.1, guard := z.2.1 }.put c z.2.2
      have hstep : (system T cfg).step s (.step c) = some s' := by
        change (advance cfg s.now c s.cells s.guard (s.calls c)).map _ = some s'
        rw [hxz]
        rfl
      obtain ⟨n, hn⟩ := ih (s := s') (by simp [s']) rfl
      refine ⟨n + 1, ?_⟩
      rw [List.replicate_succ, TransitionSystem.exec_cons_eq_some]
      refine ⟨s', hstep, hn.trans ?_⟩
      simp [s', State.put]

/-- A call that finds the guard free and runs alone has the sequential meaning of its request. -/
theorem exec_sequential {s : State T} (hg : s.guard = none) (hc : s.calls c = .idle)
    {q : Request} {r : Output T} {b : CircuitBreaker}
    (h : sequential cfg s.now s.cells q = some (r, b)) :
    ∃ n, (system T cfg).exec s (.call c q :: List.replicate n (.step c)) =
      some ({ s with cells := b }.put c (.returned r)) := by
  have halone : Alone cfg (s.put c (entry q)).now c ((s.put c (entry q)).cells,
      (s.put c (entry q)).guard, (s.put c (entry q)).calls c) (b, none, .returned r) := by
    simpa [hg] using alone_sequential (c := c) h
  obtain ⟨n, hn⟩ := exec_of_alone halone
  refine ⟨n, ((system T cfg).exec_cons_eq_some).2 ⟨s.put c (entry q), ?_, hn.trans ?_⟩⟩
  · simp [system, State.next, hc]
  · simp [State.put, hg]

def Op.request : Op → Request
  | .recordSuccess => .recordSuccess
  | .recordFailure => .recordFailure
  | .reset => .reset

theorem sequential_request (b : CircuitBreaker) (d : Call) :
    sequential (T := T) cfg d.now b d.op.request = some (.unit, apply cfg b d) := by
  cases hop : d.op <;> simp [Op.request, sequential, apply, hop]

/-- The breaker of a sequential run is the breaker of a reachable state with the guard free. -/
theorem run_reachable (cfg : BreakerConfig) (cs : List Call) (hcs : Nondecreasing cs) :
    ∃ s, (system T cfg).Reachable (fun _ _ => True) s ∧ s.cells = run cfg cs ∧ s.guard = none ∧
      (∀ t, (∀ d ∈ cs, d.now ≤ t) → s.now ≤ t) ∧ ∀ c, cs.length ≤ c → s.calls c = .idle := by
  induction cs using List.reverseRecOn with
  | nil => exact ⟨(system T cfg).init, .init, rfl, rfl, fun _ _ => Nat.zero_le _, fun _ _ => rfl⟩
  | append_singleton cs d ih =>
      obtain ⟨hprev, -, hlast⟩ := List.pairwise_append.1 hcs
      obtain ⟨s, hs, hcells, hg, hnow, hidle⟩ := ih hprev
      have hle : s.now ≤ d.now := hnow d.now (fun e he => hlast e he d (by simp))
      let t : State T := { s with now := d.now }
      have htick : (system T cfg).step s (.tick (d.now - s.now)) = some t := by
        change some { s with now := s.now + (d.now - s.now) } = some t
        rw [Nat.add_sub_cancel' hle]
      have ht := hs.step trivial htick
      have hseq : sequential cfg t.now t.cells d.op.request =
          some ((.unit : Output T), apply cfg s.cells d) := sequential_request s.cells d
      obtain ⟨n, hn⟩ := exec_sequential (s := t) (c := cs.length) hg
        (hidle cs.length (Nat.le_refl _)) hseq
      refine ⟨_, ht.exec _ (fun _ _ => trivial) hn, ?_, hg, ?_, ?_⟩
      · simp [hcells]
      · intro u hu
        exact hu d (by simp)
      · intro c hc
        rw [List.length_append, List.length_singleton] at hc
        have hne : c ≠ cs.length := by omega
        rw [State.put_calls_of_ne _ _ hne]
        exact hidle c (by omega)

end Rszero.Breaker
