import Rszero.BreakerGuard
import Mathlib.Data.Finset.Card

/-!
# Starts and successes of a half-open episode

A half-open episode is the stretch from a transition into half-open to the next one out of it. The
probe counter is zeroed at its beginning, and then `execute` adds one for every slot it asks for
and `record_success` adds one for every success. The invariant `Tally` reads the counter as the sum
of the two, so a slot that was drawn counts towards the recovery as much as a success does.
-/

namespace Rszero.Breaker

variable {T : Type}

/-- The current half-open episode, or the last one. It is armed once the counter has been zeroed;
from then on it keeps the calls that drew a slot below the maximum and the number of draws. With
the started calls and the successes recorded in the episode it keeps, for every transition from
half-open to closed so far, the number of successes in the episode which that transition ended. -/
structure Episode where
  armed : Bool
  slots : Finset CallId
  draws : ℕ
  started : Finset CallId
  succeeded : ℕ
  closings : List ℕ

namespace Episode

def fresh (closings : List ℕ) : Episode := ⟨false, ∅, 0, ∅, 0, closings⟩

def draw (cfg : BreakerConfig) (m : Episode) (c : CallId) (probe : ℕ) : Episode :=
  if m.armed then
    { m with
      draws := m.draws + 1
      slots := if probe < cfg.maxProbes then insert c m.slots else m.slots }
  else m

/-- What the code at a point of a call contributes to the counter. -/
def count (cfg : BreakerConfig) (m : Episode) (c : CallId) (probe : ℕ) : Pc T → Episode
  | .storeHalfOpen _ => { m with armed := true }
  | .fetchProbe _ => m.draw cfg c probe
  | .fetchSuccess _ => { m with succeeded := m.succeeded + 1 }
  | _ => m

def start (m : Episode) (c : CallId) : Pc T → Episode
  | .awaiting _ => { m with started := insert c m.started }
  | _ => m

def close (m : Episode) : BreakerState → Episode
  | .closed => { m with closings := m.succeeded :: m.closings }
  | _ => m

end Episode

def noteEpisode (cfg : BreakerConfig) (m : Episode) (s : State T) (a : Label T) (s' : State T) :
    Episode :=
  if s.cells.state = .halfOpen then
    match a with
    | .step c => ((m.count cfg c s.cells.probeCount (s.calls c)).start c (s'.calls c)).close
        s'.cells.state
    | _ => m
  else if s'.cells.state = .halfOpen then .fresh m.closings
  else m

theorem noteEpisode_of_cells {cfg : BreakerConfig} {m : Episode} {s s' : State T} {a : Label T}
    (ha : ∀ c, a ≠ .step c) (hs : s'.cells = s.cells) : noteEpisode cfg m s a s' = m := by
  unfold noteEpisode
  rw [hs]
  split_ifs
  · cases a
    all_goals first | rfl | exact absurd rfl (ha _)
  · rfl

def withEpisodes (T : Type) (cfg : BreakerConfig) :
    TransitionSystem (State T × Episode) (Label T) :=
  (system T cfg).observe (.fresh []) (noteEpisode cfg)

def isReset : Label T → Bool
  | .call _ .reset => true
  | _ => false

/-- While the breaker is half-open, a call starts its future only on a slot that it drew in this
episode, and a success is recorded only if the draws of the episode do not make up for successes
that are still missing. The counter does not wrap around. -/
def ownSlots (cfg : BreakerConfig) (x : State T × Episode) : Label T → Bool
  | .step c => x.1.cells.state != .halfOpen || match x.1.calls c with
      | .readOpenedAt .executeProbe => cooledDown cfg x.1.now x.1.cells.openedAt
      | .compareProbe _ probe => decide (probe < cfg.maxProbes → c ∈ x.2.slots)
      | .fetchProbe _ => decide (x.1.cells.probeCount + 1 < 2 ^ 64)
      | .fetchSuccess _ => decide (x.1.cells.probeCount + 1 < 2 ^ 64) &&
          decide (cfg.maxProbes ≤ x.2.succeeded + 1 + x.2.draws → cfg.maxProbes ≤ x.2.succeeded + 1)
      | _ => true
  | _ => true

/-- What a call that holds the guard in a half-open episode knows about the episode. -/
def Phase (cfg : BreakerConfig) (m : Episode) : Pc T → Prop
  | .storeHalfOpen _ => m.armed = false
  | .fetchSuccess _ => m.armed
  | .compareSuccess _ probes => m.armed ∧ (cfg.maxProbes ≤ probes → cfg.maxProbes ≤ m.succeeded)
  | _ => True

variable {cfg : BreakerConfig}

theorem phase_of_heldState {m : Episode} {pc : Pc T} (h : heldState pc ≠ some .halfOpen) :
    Phase cfg m pc := by
  cases pc
  all_goals trivial

theorem Phase.congr {m m' : Episode} {pc : Pc T} (h : Phase cfg m pc) (harmed : m'.armed = m.armed)
    (hsucceeded : m'.succeeded = m.succeeded) : Phase cfg m' pc := by
  cases pc
  all_goals simp_all [Phase]

namespace Episode

/-- What every episode satisfies, whatever the state of the breaker. -/
structure Sound (cfg : BreakerConfig) (m : Episode) : Prop where
  unarmed : m.armed = false → m.draws = 0 ∧ m.succeeded = 0
  card_draws : m.slots.card ≤ m.draws
  card_max : m.slots.card ≤ cfg.maxProbes
  started : m.started ⊆ m.slots
  closings : ∀ n ∈ m.closings, cfg.maxProbes ≤ n

variable {m : Episode} {c : CallId} {probe : ℕ}

theorem Sound.fresh {closings : List ℕ} (h : ∀ n ∈ closings, cfg.maxProbes ≤ n) :
    Sound cfg (.fresh closings) where
  unarmed _ := ⟨rfl, rfl⟩
  card_draws := le_rfl
  card_max := Nat.zero_le _
  started := Finset.Subset.refl _
  closings := h

theorem Sound.draw (hm : Sound cfg m) (hcount : m.armed → probe = m.draws + m.succeeded) :
    Sound cfg (m.draw cfg c probe) := by
  unfold Episode.draw
  split_ifs with harmed hprobe
  · have hcard := Finset.card_insert_le c m.slots
    have hdraws := hm.card_draws
    have hsum := hcount harmed
    refine ⟨fun h => absurd (h.symm.trans harmed) Bool.noConfusion, ?_, ?_, ?_, hm.closings⟩
    · change (insert c m.slots).card ≤ m.draws + 1
      omega
    · change (insert c m.slots).card ≤ cfg.maxProbes
      omega
    · exact hm.started.trans (Finset.subset_insert c m.slots)
  · exact ⟨fun h => absurd (h.symm.trans harmed) Bool.noConfusion,
      Nat.le_succ_of_le hm.card_draws, hm.card_max, hm.started, hm.closings⟩
  · exact hm

theorem Sound.count {pc : Pc T} (hm : Sound cfg m) (hpc : Phase cfg m pc)
    (hcount : m.armed → probe = m.draws + m.succeeded) : Sound cfg (m.count cfg c probe pc) := by
  cases pc with
  | storeHalfOpen k =>
      exact ⟨fun h => absurd h Bool.noConfusion, hm.card_draws, hm.card_max, hm.started,
        hm.closings⟩
  | fetchProbe answer => exact hm.draw hcount
  | fetchSuccess o =>
      exact ⟨fun h => absurd (h.symm.trans hpc) Bool.noConfusion, hm.card_draws, hm.card_max,
        hm.started, hm.closings⟩
  | _ => exact hm

theorem Sound.start {pc : Pc T} (hm : Sound cfg m) (hc : ∀ g, pc = .awaiting g → c ∈ m.slots) :
    Sound cfg (m.start c pc) := by
  cases pc with
  | awaiting g =>
      exact ⟨hm.unarmed, hm.card_draws, hm.card_max,
        Finset.insert_subset (hc g rfl) hm.started, hm.closings⟩
  | _ => exact hm

theorem Sound.close {st : BreakerState} (hm : Sound cfg m)
    (hst : st = .closed → cfg.maxProbes ≤ m.succeeded) : Sound cfg (m.close st) := by
  cases st with
  | closed =>
      refine ⟨hm.unarmed, hm.card_draws, hm.card_max, hm.started, ?_⟩
      intro n hn
      rcases List.mem_cons.1 hn with rfl | hn
      · exact hst rfl
      · exact hm.closings n hn
  | «open» => exact hm
  | halfOpen => exact hm

@[simp] theorem start_armed {pc : Pc T} : (m.start c pc).armed = m.armed := by cases pc <;> rfl

@[simp] theorem start_draws {pc : Pc T} : (m.start c pc).draws = m.draws := by cases pc <;> rfl

@[simp] theorem start_succeeded {pc : Pc T} : (m.start c pc).succeeded = m.succeeded := by
  cases pc <;> rfl

@[simp] theorem close_halfOpen : m.close .halfOpen = m := rfl

@[simp] theorem draw_armed : (m.draw cfg c probe).armed = m.armed := by
  unfold Episode.draw
  split_ifs <;> rfl

@[simp] theorem draw_succeeded : (m.draw cfg c probe).succeeded = m.succeeded := by
  unfold Episode.draw
  split_ifs <;> rfl

theorem count_of_free (cfg : BreakerConfig) (m : Episode) (c : CallId) (probe : ℕ) {pc : Pc T}
    (h : heldState pc = none) : (m.count cfg c probe pc).armed = m.armed ∧
      (m.count cfg c probe pc).succeeded = m.succeeded := by
  cases pc with
  | fetchProbe answer => exact ⟨draw_armed, draw_succeeded⟩
  | storeHalfOpen k => cases h
  | fetchSuccess o => cases h
  | _ => exact ⟨rfl, rfl⟩

theorem draw_draws_of_armed (h : m.armed) : (m.draw cfg c probe).draws = m.draws + 1 := by
  simp [Episode.draw, h]

end Episode

section Advance

variable {now : ℕ} {c : CallId} {b b' : CircuitBreaker} {g g' : Option CallId} {pc pc' : Pc T}

theorem resume_ne_lockReset (k : Caller T) (answer : BreakerState) :
    resume k answer ≠ .lockReset := by
  cases k with
  | executeIsOpen => by_cases h : answer = .open <;> simp [resume, h]
  | executeProbe => by_cases h : answer = .halfOpen <;> simp [resume, h]
  | isOpen => simp [resume]
  | isClosed => simp [resume]
  | record ok o => simp [resume]

theorem finished_ne_lockReset (o : Origin T) : finished o ≠ .lockReset := by
  rcases o with _ | ⟨_, _ | _⟩ <;> simp [finished]

theorem advance_ne_lockReset (h : advance cfg now c b g pc = some (b', g', pc')) :
    pc' ≠ .lockReset := by
  revert h
  fun_cases advance cfg now c b g pc <;> intro h <;> cases h
  all_goals first
    | exact resume_ne_lockReset _ _
    | exact finished_ne_lockReset _
    | simp

/-- An episode begins with the write guard in the hands of the call that will zero the counter. -/
theorem advance_begins (h : advance cfg now c b g pc = some (b', g', pc'))
    (hb : b.state ≠ .halfOpen) (hb' : b'.state = .halfOpen) :
    g = none ∧ g' = some c ∧ ∃ k, pc' = .storeHalfOpen k := by
  revert h
  fun_cases advance cfg now c b g pc <;> intro h <;> cases h
  all_goals simp_all

theorem resume_eq_awaiting {k : Caller T} {answer : BreakerState} {r : Grant}
    (h : resume k answer = .awaiting r) : k = .executeProbe ∧ answer ≠ .halfOpen := by
  cases k with
  | executeIsOpen => by_cases ho : answer = .open <;> simp [resume, ho] at h
  | executeProbe => by_cases ho : answer = .halfOpen <;> simp_all [resume]
  | isOpen => cases h
  | isClosed => cases h
  | record ok o => cases h

theorem finished_ne_awaiting (o : Origin T) (r : Grant) : finished o ≠ .awaiting r := by
  rcases o with _ | ⟨_, _ | _⟩ <;> simp [finished]

/-- In an episode a future starts on a slot or on a stale answer of the second evaluation. -/
theorem advance_starts {r : Grant} (h : advance cfg now c b g pc = some (b', g', .awaiting r))
    (hb : b.state = .halfOpen) :
    (∃ answer probe, pc = .compareProbe answer probe ∧ probe < cfg.maxProbes) ∨
    (pc = .readOpenedAt .executeProbe ∧ ¬ cooledDown cfg now b.openedAt) := by
  revert h
  fun_cases advance cfg now c b g pc <;> intro h <;>
    simp only [Option.some.injEq, Prod.mk.injEq, reduceCtorEq] at h
  all_goals obtain ⟨-, -, h⟩ := h
  all_goals first
    | cases h
    | exact absurd h (finished_ne_awaiting _ _)
    | obtain ⟨rfl, hne⟩ := resume_eq_awaiting h
  · exact absurd hb hne
  · exact .inr ⟨rfl, ‹_›⟩
  · exact absurd rfl hne
  · exact absurd rfl hne
  · exact .inl ⟨_, _, rfl, Nat.lt_of_not_le ‹_›⟩

/-- An episode ends in the closed state when a success brings the counter to the maximum. -/
theorem advance_closes (h : advance cfg now c b g pc = some (b', g', pc'))
    (hb : b.state = .halfOpen) (hb' : b'.state = .closed) (hreset : pc ≠ .lockReset) :
    ∃ o probes, pc = .compareSuccess o probes ∧ cfg.maxProbes ≤ probes := by
  revert h
  fun_cases advance cfg now c b g pc <;> intro h <;> cases h
  all_goals simp_all

variable {m : Episode}

/-- The counter is the sum of the draws and the successes of an armed episode. -/
def Episode.Sums (m : Episode) (b : CircuitBreaker) : Prop :=
  b.state = .halfOpen → m.armed → b.probeCount = m.draws + m.succeeded

theorem advance_sums (h : advance cfg now c b g pc = some (b', g', pc'))
    (hheld : ∀ st, heldState pc = some st → b.state = st) (hb : b.state = .halfOpen)
    (hm : m.Sound cfg) (hsums : m.Sums b) (hpc : Phase cfg m pc)
    (hprobe : ∀ answer, pc = .fetchProbe answer → b.probeCount + 1 < 2 ^ 64)
    (hsuccess : ∀ o, pc = .fetchSuccess o → b.probeCount + 1 < 2 ^ 64) :
    (m.count cfg c b.probeCount pc).Sums b' := by
  intro hb' harmed
  revert h
  fun_cases advance cfg now c b g pc <;> intro h <;> cases h
  all_goals simp_all [Episode.count, Episode.Sums, heldState, Phase]
  · simp [hm.unarmed hpc]
  · rw [fetchAdd_of_lt hprobe, Episode.draw_draws_of_armed harmed]
    omega
  · rw [fetchAdd_of_lt hsuccess, Nat.add_assoc]

theorem advance_armed (h : advance cfg now c b g pc = some (b', g', pc'))
    (hheld : ∀ st, heldState pc = some st → b.state = st) (hb : b.state = .halfOpen)
    (hpc : Phase cfg m pc) (hfree : g = none → m.armed) (hg : g' = none) :
    (m.count cfg c b.probeCount pc).armed := by
  revert h
  fun_cases advance cfg now c b g pc <;> intro h <;> cases h
  all_goals simp_all [Episode.count, heldState, Phase]

theorem advance_phase (h : advance cfg now c b g pc = some (b', g', pc'))
    (hheld : ∀ st, heldState pc = some st → b.state = st) (hb : b.state = .halfOpen)
    (hsums : m.Sums b) (hpc : Phase cfg m pc) (hfree : g = none → m.armed)
    (hsuccess : ∀ o, pc = .fetchSuccess o →
      cfg.maxProbes ≤ m.succeeded + 1 + m.draws → cfg.maxProbes ≤ m.succeeded + 1) :
    Phase cfg (m.count cfg c b.probeCount pc) pc' := by
  revert h
  fun_cases advance cfg now c b g pc <;> intro h <;> cases h
  all_goals try exact phase_of_heldState (by simp only [heldState_resume, heldState_finished]; simp)
  all_goals simp_all [Episode.count, Episode.Sums, heldState, Phase]
  have hle := fetchAdd_le (m.draws + m.succeeded)
  omega

end Advance

theorem ownSlots_step {x : State T × Episode} {c : CallId} (ha : ownSlots cfg x (.step c))
    (hb : x.1.cells.state = .halfOpen) :
    (x.1.calls c = .readOpenedAt .executeProbe → cooledDown cfg x.1.now x.1.cells.openedAt) ∧
    (∀ answer probe, x.1.calls c = .compareProbe answer probe → probe < cfg.maxProbes →
      c ∈ x.2.slots) ∧
    (∀ answer, x.1.calls c = .fetchProbe answer → x.1.cells.probeCount + 1 < 2 ^ 64) ∧
    ∀ o, x.1.calls c = .fetchSuccess o → x.1.cells.probeCount + 1 < 2 ^ 64 ∧
      (cfg.maxProbes ≤ x.2.succeeded + 1 + x.2.draws → cfg.maxProbes ≤ x.2.succeeded + 1) := by
  simp only [ownSlots, hb, bne_self_eq_false, Bool.false_or] at ha
  refine ⟨fun hc => ?_, fun answer probe hc => ?_, fun answer hc => ?_, fun o hc => ?_⟩
  all_goals rw [hc] at ha
  · exact ha
  · exact of_decide_eq_true ha
  · exact of_decide_eq_true ha
  · simpa only [Bool.and_eq_true, decide_eq_true_eq] using ha

structure Tally (cfg : BreakerConfig) (x : State T × Episode) : Prop where
  held : Held x.1
  noReset : ∀ c, x.1.calls c ≠ .lockReset
  phase : ∀ c, Phase cfg x.2 (x.1.calls c)
  armed : x.1.cells.state = .halfOpen → x.1.guard = none → x.2.armed
  sums : x.2.Sums x.1.cells
  sound : x.2.Sound cfg

namespace Tally

theorem initial : Tally cfg (withEpisodes T cfg).init where
  held := .initial cfg
  noReset c h := by cases h
  phase c := trivial
  armed h := by cases h
  sums h := by cases h
  sound := .fresh (by simp)

variable {x y : State T × Episode} {s : State T} {m : Episode}

/-- A step of a call that leaves the cells and the guard alone keeps the invariant. -/
theorem put (hx : Tally cfg (s, m)) {c : CallId} {pc : Pc T} (hc : heldState (s.calls c) = none)
    (hpc : heldState pc = none) (hreset : pc ≠ .lockReset) : Tally cfg (s.put c pc, m) where
  held := hx.held.put hc hpc
  noReset := State.forall_put (p := (· ≠ .lockReset)) hx.noReset hreset
  phase := State.forall_put hx.phase (phase_of_heldState (by rw [hpc]; simp))
  armed := hx.armed
  sums := hx.sums
  sound := hx.sound

theorem noReset_advance (hx : Tally cfg (s, m)) {c : CallId} {b : CircuitBreaker}
    {g : Option CallId} {pc : Pc T}
    (hr : advance cfg s.now c s.cells s.guard (s.calls c) = some (b, g, pc)) (d : CallId) :
    ({ s with cells := b, guard := g }.put c pc).calls d ≠ .lockReset :=
  State.forall_put (p := (· ≠ .lockReset)) (s := { s with cells := b, guard := g }) hx.noReset
    (advance_ne_lockReset hr) d

/-- Outside an episode nobody holds the guard in a half-open phase. -/
theorem phase_of_ne {d : CallId} (hs : Held s) (hb : s.cells.state ≠ .halfOpen) :
    Phase cfg m (s.calls d) :=
  phase_of_heldState (fun hd => hb (hs.cell d .halfOpen hd))

/-- A step of a call that ends outside an episode keeps the invariant, if the record is sound. -/
theorem of_ne (hs : Held s) (hb : s.cells.state ≠ .halfOpen) (hreset : ∀ c, s.calls c ≠ .lockReset)
    (hm : m.Sound cfg) : Tally cfg (s, m) where
  held := hs
  noReset := hreset
  phase _ := phase_of_ne hs hb
  armed h := absurd h hb
  sums h := absurd h hb
  sound := hm

theorem begins (hx : Tally cfg (s, m)) {c : CallId} {b : CircuitBreaker} {g : Option CallId}
    {pc : Pc T} (hr : advance cfg s.now c s.cells s.guard (s.calls c) = some (b, g, pc))
    (hb : s.cells.state ≠ .halfOpen) (hb' : b.state = .halfOpen) :
    Tally cfg ({ s with cells := b, guard := g }.put c pc, .fresh m.closings) := by
  obtain ⟨hfree, hg, k, hpc⟩ := advance_begins hr hb hb'
  refine ⟨hx.held.advance hr, hx.noReset_advance hr, ?_, ?_, ?_, .fresh hx.sound.closings⟩
  · refine State.forall_put (s := { s with cells := b, guard := g }) (fun d => ?_) ?_
    · exact phase_of_heldState (by rw [hx.held.free hfree d]; simp)
    · rw [hpc]
      rfl
  · intro _ hnone
    rw [State.put_guard, hg] at hnone
    cases hnone
  · intro _ harmed
    cases harmed

/-- The counting of one call does not concern the phase of another: a call that counts more than a
draw holds the guard. -/
theorem phase_count (hs : Held s) (hphase : ∀ d, Phase cfg m (s.calls d)) {c d : CallId}
    (hd : d ≠ c) (probe : ℕ) : Phase cfg (m.count cfg c probe (s.calls c)) (s.calls d) := by
  by_cases hc : heldState (s.calls c) = none
  · obtain ⟨harmed, hsucceeded⟩ := m.count_of_free cfg c probe hc
    exact (hphase d).congr harmed hsucceeded
  · refine phase_of_heldState (fun hheld => hd (hs.unique ?_ hc))
    simp [hheld]

/-- A step inside an episode. -/
theorem inside (hx : Tally cfg (s, m)) {c : CallId} {b : CircuitBreaker} {g : Option CallId}
    {pc : Pc T} (hr : advance cfg s.now c s.cells s.guard (s.calls c) = some (b, g, pc))
    (hb : s.cells.state = .halfOpen) (hown : ownSlots cfg (s, m) (.step c)) :
    Tally cfg ({ s with cells := b, guard := g }.put c pc,
      ((m.count cfg c s.cells.probeCount (s.calls c)).start c pc).close b.state) := by
  obtain ⟨hcool, hslot, hprobe, hsuccess⟩ := ownSlots_step hown hb
  have hheld := hx.held.cell c
  have hcount := hx.sound.count (c := c) (hx.phase c) (hx.sums hb)
  have hstart : ((m.count cfg c s.cells.probeCount (s.calls c)).start c pc).Sound cfg := by
    refine hcount.start ?_
    rintro r rfl
    rcases advance_starts hr hb with ⟨answer, probe, hpc, hlt⟩ | ⟨hpc, hcd⟩
    · rw [hpc]
      exact hslot answer probe hpc hlt
    · exact absurd (hcool hpc) hcd
  have hclose : (((m.count cfg c s.cells.probeCount (s.calls c)).start c pc).close
      b.state).Sound cfg := by
    refine hstart.close (fun hclosed => ?_)
    obtain ⟨o, probes, hpc, hle⟩ := advance_closes hr hb hclosed (hx.noReset c)
    have hphase := hx.phase c
    rw [hpc] at hphase ⊢
    simpa [Episode.count] using hphase.2 hle
  by_cases hb' : b.state = .halfOpen
  · refine ⟨hx.held.advance hr, hx.noReset_advance hr, ?_, ?_, ?_, hclose⟩
    · intro d
      rw [hb', Episode.close_halfOpen]
      refine Phase.congr (m := m.count cfg c s.cells.probeCount (s.calls c)) ?_
        Episode.start_armed Episode.start_succeeded
      by_cases hd : d = c
      · subst hd
        rw [State.put_calls_self]
        exact advance_phase hr hheld hb hx.sums (hx.phase d) (hx.armed hb)
          (fun o ho => (hsuccess o ho).2)
      · rw [State.put_calls_of_ne _ _ hd]
        exact phase_count hx.held hx.phase hd _
    · intro _ hg
      rw [hb', Episode.close_halfOpen, Episode.start_armed]
      exact advance_armed hr hheld hb (hx.phase c) (hx.armed hb) hg
    · rw [hb', Episode.close_halfOpen]
      have hsums := advance_sums hr hheld hb hx.sound hx.sums (hx.phase c) hprobe
        (fun o ho => (hsuccess o ho).1)
      simpa [Episode.Sums] using hsums
  · exact of_ne (hx.held.advance hr) hb' (hx.noReset_advance hr) hclose

theorem next (hx : Tally cfg x) {a : Label T} (hreset : ¬ isReset a) (hown : ownSlots cfg x a)
    (h : (withEpisodes T cfg).step x a = some y) : Tally cfg y := by
  obtain ⟨hstep, hnote⟩ := TransitionSystem.observe_step_eq_some.1 h
  obtain ⟨s, m⟩ := x
  obtain ⟨s', m'⟩ := y
  rcases next_cases hstep with ⟨c, q, rfl, hc, rfl⟩ | ⟨c, b, g, pc, rfl, hr, rfl⟩ |
    ⟨c, g, outcome, rfl, hc, rfl⟩ | ⟨c, g, rfl, hc, rfl⟩ | ⟨d, rfl, rfl⟩
  · obtain rfl : m' = m := hnote.trans (noteEpisode_of_cells (by simp) rfl)
    refine hx.put (by rw [hc]; rfl) (heldState_entry q) ?_
    intro hq
    cases q
    all_goals first | exact hreset rfl | cases hq
  · by_cases hb : s.cells.state = .halfOpen
    · obtain rfl : m' = _ := by simpa [noteEpisode, hb] using hnote
      exact hx.inside hr hb hown
    · by_cases hb' : b.state = .halfOpen
      · obtain rfl : m' = .fresh m.closings := by simpa [noteEpisode, hb, hb'] using hnote
        exact hx.begins hr hb hb'
      · obtain rfl : m' = m := by simpa [noteEpisode, hb, hb'] using hnote
        exact of_ne (hx.held.advance hr) hb' (hx.noReset_advance hr) hx.sound
  · obtain rfl : m' = m := hnote.trans (noteEpisode_of_cells (by simp) rfl)
    exact hx.put (by rw [hc]; rfl) rfl (by simp)
  · obtain rfl : m' = m := hnote.trans (noteEpisode_of_cells (by simp) rfl)
    exact hx.put (by rw [hc]; rfl) rfl (by simp)
  · obtain rfl : m' = m := hnote.trans (noteEpisode_of_cells (by simp) rfl)
    exact ⟨hx.held.next hstep, hx.noReset, hx.phase, hx.armed, hx.sums, hx.sound⟩

end Tally

/-- In a run without resets in which every future of a half-open episode starts on a slot of that
episode, and no success comes when the draws would stand in for missing successes, an episode
starts at most `max_probes` futures, and a breaker recovers only after `max_probes` successes. -/
theorem episode_bounds_of_ownSlots (cfg : BreakerConfig) {x : State T × Episode}
    (hx : (withEpisodes T cfg).Reachable (fun y a => ¬ isReset a ∧ ownSlots cfg y a) x) :
    x.2.started.card ≤ cfg.maxProbes ∧ ∀ n ∈ x.2.closings, cfg.maxProbes ≤ n := by
  have hinv : Tally cfg x := by
    refine hx.invariant .initial ?_
    intro y a z hy ha hstep
    exact hy.next ha.1 ha.2 hstep
  exact ⟨(Finset.card_le_card hinv.sound.started).trans hinv.sound.card_max, hinv.sound.closings⟩

def probeSucceeds (ok : Except String Unit) : List (Label Unit) :=
  openingBy 1 ++ [.tick 60, .call 0 .execute] ++ List.replicate 7 (.step 0) ++ [.finish 0 ok] ++
    List.replicate 6 (.step 0)

/-- One probe is enough where one is asked for. -/
theorem episode_bounds_of_ownSlots_one_probe :
    ∃ x, (withEpisodes Unit oneFailure).Reachable
        (fun y a => ¬ isReset a ∧ ownSlots oneFailure y a) x ∧
      x.1.cells.state = .closed ∧ x.2.started = {0} ∧ x.2.closings = [1] ∧
      x.2.started.card ≤ 1 ∧ ∀ n ∈ x.2.closings, 1 ≤ n := by
  obtain ⟨x, he, hp⟩ := ((withEpisodes Unit oneFailure).guard
      (fun y a => ¬ isReset a ∧ ownSlots oneFailure y a)).exists_exec
    (s := (withEpisodes Unit oneFailure).init) (r := probeSucceeds (.ok ()))
    (p := fun x => x.1.cells.state == .closed && x.2.started == {0} && x.2.closings == [1])
    (by decide +kernel)
  have hx := (withEpisodes Unit oneFailure).reachable_of_guard_exec .init he
  simp only [Bool.and_eq_true, beq_iff_eq] at hp
  obtain ⟨⟨hb, hs⟩, hc⟩ := hp
  exact ⟨x, hx, hb, hs, hc, episode_bounds_of_ownSlots oneFailure hx⟩

def twoProbes : BreakerConfig := { oneFailure with maxProbes := 2 }

/-- Two probes are asked for. The slot and the success of the first one make two. -/
theorem closed_after_one_success :
    ∃ x, (withEpisodes Unit twoProbes).Reachable (fun _ a => ¬ isReset a) x ∧
      ¬ ∀ n ∈ x.2.closings, twoProbes.maxProbes ≤ n := by
  obtain ⟨x, he, hp⟩ := ((withEpisodes Unit twoProbes).guard (fun _ a => ¬ isReset a)).exists_exec
    (s := (withEpisodes Unit twoProbes).init) (r := probeSucceeds (.ok ()))
    (p := fun x => x.2.closings == [1]) (by decide +kernel)
  refine ⟨x, (withEpisodes Unit twoProbes).reachable_of_guard_exec .init he, fun h => ?_⟩
  have hle := h 1 (by rw [eq_of_beq hp]; simp)
  simp [twoProbes] at hle

end Rszero.Breaker
