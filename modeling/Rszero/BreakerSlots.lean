import Rszero.BreakerGuard

/-!
# Probe slots and their holders

A half-open breaker admits a call while the probe counter is below `max_probes`, and only the
outcome of a started call moves it on. The invariant `Covered` says that a counter which has
reached the maximum is covered by a call that will still record an outcome. Dropping the future of
such a call takes the cover away and leaves the counter as it is.
-/

namespace Rszero.Breaker

variable {T : Type}

def Origin.slot : Origin T → Bool
  | .direct => false
  | .execute g _ => g.probe.isSome

def Caller.slot : Caller T → Bool
  | .record _ o => o.slot
  | _ => false

/-- The call covers a full probe counter: it will record an outcome on a slot it was given, or it
is about to close the breaker or to reset the counter. -/
def Covers (cfg : BreakerConfig) : Pc T → Prop
  | .readState k | .readOpenedAt k | .lockHalfOpen k => k.slot
  | .storeHalfOpen _ => True
  | .compareProbe _ probe => probe < cfg.maxProbes
  | .awaiting g => g.probe.isSome
  | .appendWindow _ o | .addTotal _ o | .lockOutcome _ o | .fetchSuccess o => o.slot
  | .compareSuccess _ probes => cfg.maxProbes ≤ probes
  | _ => False

def Covered (cfg : BreakerConfig) (s : State T) : Prop :=
  s.cells.state = .halfOpen → cfg.maxProbes ≤ s.cells.probeCount → ∃ c, Covers cfg (s.calls c)

def Origin.started : Origin T → Bool
  | .direct => false
  | .execute _ _ => true

def Caller.started : Caller T → Bool
  | .record _ o => o.started
  | _ => false

/-- The call has been started and is outstanding: it is an `execute` that has been admitted and has
not returned, or it holds the write guard. -/
def Started (cfg : BreakerConfig) : Pc T → Prop
  | .readState k | .readOpenedAt k | .lockHalfOpen k => k.started
  | .compareProbe _ probe => probe < cfg.maxProbes
  | .awaiting _ => True
  | .appendWindow _ o | .addTotal _ o | .lockOutcome _ o => o.started
  | .storeHalfOpen _ | .fetchSuccess _ | .compareSuccess _ _ | .storeClosed _ | .readWindow _
  | .stampOpen _ _ _ | .storeOpen _ | .clearOpenedAt | .clearWindow | .storeReset => True
  | _ => False

/-- No future that `execute` started on a probe slot is dropped while the breaker is half-open. -/
def keepsProbes (s : State T) : Label T → Bool
  | .drop c => match s.calls c with
      | .awaiting g => g.probe.isNone || s.cells.state != .halfOpen
      | _ => true
  | _ => true

variable {cfg : BreakerConfig}

theorem covers_resume_or (k : Caller T) (answer : BreakerState) :
    Covers cfg (resume k answer) ∨ ¬ k.slot := by
  cases k with
  | record ok o => exact Classical.em _
  | isOpen => exact .inr (by simp [Caller.slot])
  | isClosed => exact .inr (by simp [Caller.slot])
  | executeIsOpen => exact .inr (by simp [Caller.slot])
  | executeProbe => exact .inr (by simp [Caller.slot])

/-- After a step that leaves a full counter behind, either the call itself covers it or it was full
before and some other call covered it. -/
theorem advance_covers (hmax : 1 ≤ cfg.maxProbes) {now : ℕ} {c : CallId}
    {b b' : CircuitBreaker} {g g' : Option CallId} {pc pc' : Pc T}
    (h : advance cfg now c b g pc = some (b', g', pc')) (hb : b'.state = .halfOpen)
    (hfull : cfg.maxProbes ≤ b'.probeCount) :
    Covers cfg pc' ∨
      b.state = .halfOpen ∧ cfg.maxProbes ≤ b.probeCount ∧ ¬ Covers cfg pc := by
  revert h
  fun_cases advance cfg now c b g pc <;> intro h <;> cases h
  all_goals first
    | exact (covers_resume_or _ _).imp id (fun hn => ⟨hb, hfull, hn⟩)
    | simp_all [Covers]
  exact Nat.lt_or_ge _ _

theorem Covered.initial : Covered cfg (system T cfg).init := by
  intro hs
  cases hs

theorem Covered.put {s : State T} (hs : Covered cfg s) {c : CallId} {pc : Pc T}
    (hc : Covers cfg (s.calls c) → Covers cfg pc ∨ s.cells.state ≠ .halfOpen) :
    Covered cfg (s.put c pc) := by
  intro hb hfull
  obtain ⟨d, hd⟩ := hs hb hfull
  by_cases hdc : d = c
  · subst hdc
    exact ⟨d, by simpa using (hc hd).resolve_right (not_not.2 hb)⟩
  · exact ⟨d, by rwa [State.put_calls_of_ne _ _ hdc]⟩

theorem Covered.next (hmax : 1 ≤ cfg.maxProbes) {s s' : State T} {a : Label T}
    (hs : Covered cfg s) (ha : keepsProbes s a) (h : (system T cfg).step s a = some s') :
    Covered cfg s' := by
  rcases next_cases h with ⟨c, q, -, hc, rfl⟩ | ⟨c, b, g, pc, -, hr, rfl⟩ |
    ⟨c, g, outcome, -, hc, rfl⟩ | ⟨c, g, rfl, hc, rfl⟩ | ⟨d, -, rfl⟩
  · exact hs.put (fun hcov => by simp [hc, Covers] at hcov)
  · intro hb hfull
    rcases advance_covers hmax hr hb hfull with hpc | ⟨hb', hfull', hpc⟩
    · exact ⟨c, by simpa using hpc⟩
    · obtain ⟨d, hd⟩ := hs hb' hfull'
      have hdc : d ≠ c := fun he => hpc (he ▸ hd)
      exact ⟨d, by rwa [State.put_calls_of_ne _ _ hdc]⟩
  · exact hs.put (fun hcov => .inl (by simpa [hc, Covers, Caller.slot, Origin.slot] using hcov))
  · refine hs.put (fun hcov => .inr ?_)
    have hslot : g.probe.isSome := by simpa [hc, Covers] using hcov
    simpa [keepsProbes, hc, Option.isNone_iff_eq_none, Option.isSome_iff_ne_none.1 hslot] using ha
  · exact hs

theorem started_of_slot {o : Origin T} (h : o.slot) : o.started := by
  cases o with
  | direct => cases h
  | execute g r => rfl

theorem caller_started_of_slot {k : Caller T} (h : k.slot) : k.started := by
  cases k with
  | record ok o => exact started_of_slot h
  | isOpen => cases h
  | isClosed => cases h
  | executeIsOpen => cases h
  | executeProbe => cases h

/-- What covers the counter is a started call. -/
theorem started_of_covers {pc : Pc T} (h : Covers cfg pc) : Started cfg pc := by
  cases pc
  all_goals first
    | exact caller_started_of_slot h
    | exact started_of_slot h
    | exact h
    | trivial

theorem started_of_held {pc : Pc T} (h : heldState pc ≠ none) : Started cfg pc := by
  cases pc
  all_goals trivial

/-- The steps of an `execute` that finds the breaker half-open and the guard free. -/
theorem execute_admitted {s : State T} (hb : s.cells.state = .halfOpen) (hg : s.guard = none)
    (hcount : s.cells.probeCount < cfg.maxProbes) {c : CallId} (hc : s.calls c = .idle) :
    ∃ s', (system T cfg).exec s [.call c .execute, .step c, .step c, .step c, .step c] = some s' ∧
      s'.calls c = .awaiting ⟨.halfOpen, some s.cells.probeCount⟩ := by
  have hlt : ¬ cfg.maxProbes ≤ s.cells.probeCount := Nat.not_le.2 hcount
  simp [TransitionSystem.exec, system, State.next, State.put, entry, advance, resume, hb, hg, hc,
    hlt]

/-- In a run that drops no future started on a slot of a half-open breaker, a half-open breaker
with no started call outstanding has a slot left, and the next `execute` starts its future. -/
theorem halfOpen_admits_of_keepsProbes (cfg : BreakerConfig) (hmax : 1 ≤ cfg.maxProbes)
    {s : State T} (hs : (system T cfg).Reachable (fun t a => keepsProbes t a) s)
    (hb : s.cells.state = .halfOpen) (hidle : ∀ c, ¬ Started cfg (s.calls c)) :
    s.cells.probeCount < cfg.maxProbes ∧ ∀ c, s.calls c = .idle →
      ∃ s', (system T cfg).exec s [.call c .execute, .step c, .step c, .step c, .step c] = some s' ∧
        s'.calls c = .awaiting ⟨.halfOpen, some s.cells.probeCount⟩ := by
  have hheld : Held s := hs.invariant (.initial cfg) (fun _ _ _ ht _ h => ht.next h)
  have hcov : Covered cfg s := hs.invariant .initial (fun _ _ _ ht ha h => ht.next hmax ha h)
  have hg : s.guard = none := by
    by_contra hne
    obtain ⟨c, hc⟩ := Option.ne_none_iff_exists'.1 hne
    exact hidle c (started_of_held ((hheld.guard_iff c).1 hc))
  have hcount : s.cells.probeCount < cfg.maxProbes := by
    by_contra! hfull
    obtain ⟨c, hc⟩ := hcov hb hfull
    exact hidle c (started_of_covers hc)
  exact ⟨hcount, fun c hc => execute_admitted hb hg hcount hc⟩

theorem not_started_of_over {pc : Pc T} (h : pc.over) : ¬ Started cfg pc := by
  cases pc
  all_goals first | exact id | cases h

def probeAfterQuery : List (Label Unit) :=
  openingBy 1 ++ [.tick 60, .call 0 .isOpen] ++ List.replicate 4 (.step 0)

theorem halfOpen_admits_after_cooldown :
    ∃ s, (system Unit oneFailure).Reachable (fun t a => keepsProbes t a) s ∧
      s.cells.state = .halfOpen ∧ s.cells.probeCount < 1 := by
  obtain ⟨s, he, hp⟩ := ((system Unit oneFailure).guard (fun t a => keepsProbes t a)).exists_exec
    (s := (system Unit oneFailure).init) (r := probeAfterQuery)
    (p := fun s => s.cells.state == .halfOpen &&
      probeAfterQuery.all (fun a => a.caller.all (fun c => (s.calls c).over))) (by decide +kernel)
  simp only [Bool.and_eq_true, beq_iff_eq] at hp
  obtain ⟨hb, hover⟩ := hp
  have hs := (system Unit oneFailure).reachable_of_guard_exec .init he
  have hexec := ((system Unit oneFailure).exec_of_guard_exec he).1
  exact ⟨s, hs, hb, (halfOpen_admits_of_keepsProbes oneFailure (by decide) hs hb
    (fun c => not_started_of_over (over_of_callers hexec hover c))).1⟩

def probeDropped : List (Label Unit) :=
  openingBy 1 ++ [.tick 60, .call 0 .execute] ++ List.replicate 7 (.step 0) ++ [.drop 0]

/-- The one probe of a half-open breaker is dropped: every call is over and no slot is left. -/
theorem probeDropped_wedges :
    ∃ s, (system Unit oneFailure).Reachable (fun _ _ => True) s ∧ s.cells.state = .halfOpen ∧
      s.guard = none ∧ (∀ c, (s.calls c).over) ∧
      ¬ s.cells.probeCount < oneFailure.maxProbes := by
  obtain ⟨s, he, hp⟩ := (system Unit oneFailure).exists_exec
    (s := (system Unit oneFailure).init) (r := probeDropped)
    (p := fun s => s.cells.state == .halfOpen && s.guard == none && s.cells.probeCount == 1 &&
      probeDropped.all (fun a => a.caller.all (fun c => (s.calls c).over))) (by decide +kernel)
  simp only [Bool.and_eq_true, beq_iff_eq] at hp
  obtain ⟨⟨⟨hb, hg⟩, hcount⟩, hover⟩ := hp
  refine ⟨s, TransitionSystem.Reachable.exec _ .init (fun _ _ => trivial) he, hb, hg,
    over_of_callers he hover, ?_⟩
  simp [oneFailure, hcount]

end Rszero.Breaker
