import Rszero.BreakerSteps

/-!
# On what grounds a future is started

`execute` evaluates the state twice and compares the two answers with different constants. The
second evaluation may answer open, when another call opened the breaker after the first one, and
that answer passes the comparison with half-open. This is the only way past the breaker.
-/

namespace Rszero.Breaker

variable {T : Type} (cfg : BreakerConfig)

/-- The last answer was closed, or it was half-open and the call obtained a probe slot. -/
def Admitted (g : Grant) : Prop :=
  g.answer = .closed ∨ g.answer = .halfOpen ∧ ∃ n, g.probe = some n ∧ n < cfg.maxProbes

/-- On what the call has started its future, while it awaits it. -/
def Pc.grant : Pc T → Option Grant
  | .awaiting g => some g
  | _ => none

theorem grant_eq_some {pc : Pc T} {g : Grant} : pc.grant = some g ↔ pc = .awaiting g := by
  cases pc
  all_goals simp [Pc.grant]

def AllAdmitted (s : State T) : Prop := ∀ c g, s.calls c = .awaiting g → Admitted cfg g

/-- The second evaluation of `execute` does not read an opening younger than the cool-down. -/
def cooledAtProbe (s : State T) : Label T → Bool
  | .step c => match s.calls c with
      | .readOpenedAt .executeProbe => cooledDown cfg s.now s.cells.openedAt
      | _ => true
  | _ => true

theorem cooledAtProbe_step {s : State T} {c : CallId} : cooledAtProbe cfg s (.step c) ↔
    (s.calls c = .readOpenedAt .executeProbe → cooledDown cfg s.now s.cells.openedAt) := by
  unfold cooledAtProbe
  dsimp only
  split <;> simp_all

def Fair : Pc T → Prop
  | .fetchProbe answer => answer = .halfOpen
  | .compareProbe answer _ => answer = .halfOpen
  | .awaiting g => Admitted cfg g
  | _ => True

variable {cfg}

theorem fair_resume {k : Caller T} {answer : BreakerState}
    (h : k = .executeProbe → answer ≠ .open) : Fair cfg (resume k answer) := by
  cases k with
  | executeIsOpen => by_cases ho : answer = .open <;> simp [resume, ho, Fair]
  | executeProbe =>
      cases answer with
      | closed => exact .inl rfl
      | «open» => exact absurd rfl (h rfl)
      | halfOpen => rfl
  | isOpen => trivial
  | isClosed => trivial
  | record ok o => trivial

theorem fair_finished (o : Origin T) : Fair cfg (finished o) := by
  rcases o with _ | ⟨_, _ | _⟩ <;> trivial

theorem fair_entry (q : Request) : Fair cfg (entry q : Pc T) := by cases q <;> trivial

/-- A step keeps `Fair` unless it is the one that takes the answer open for an admission. -/
theorem advance_fair {now : ℕ} {c : CallId} {b b' : CircuitBreaker} {g g' : Option CallId}
    {pc pc' : Pc T} (h : advance cfg now c b g pc = some (b', g', pc')) (hpc : Fair cfg pc)
    (hcool : pc = .readOpenedAt .executeProbe → cooledDown cfg now b.openedAt) :
    Fair cfg pc' := by
  revert h
  fun_cases advance cfg now c b g pc <;> intro h <;> cases h
  all_goals first | exact fair_finished _ | trivial | skip
  · rename_i k _ hs
    exact fair_resume (fun _ => hs)
  · rename_i k hcd
    exact fair_resume (fun hk => absurd (hcool (by rw [hk])) hcd)
  · exact fair_resume (by simp)
  · exact fair_resume (by simp)
  · rename_i answer probe hlt
    exact .inr ⟨hpc, probe, rfl, Nat.lt_of_not_le hlt⟩

def AllFair (cfg : BreakerConfig) (s : State T) : Prop := ∀ c, Fair cfg (s.calls c)

theorem AllFair.admitted {s : State T} (h : AllFair cfg s) : AllAdmitted cfg s := by
  intro c g hg
  have hf := h c
  rwa [hg] at hf

theorem AllFair.next {s s' : State T} {a : Label T} (hs : AllFair cfg s)
    (ha : cooledAtProbe cfg s a) (h : (system T cfg).step s a = some s') : AllFair cfg s' := by
  rcases next_cases h with ⟨c, q, -, -, rfl⟩ | ⟨c, b, g, pc, rfl, hr, rfl⟩ |
    ⟨c, g, outcome, -, -, rfl⟩ | ⟨c, g, -, -, rfl⟩ | ⟨d, -, rfl⟩
  · exact State.forall_put hs (fair_entry q)
  · exact State.forall_put (s := { s with cells := b, guard := g }) hs
      (advance_fair hr (hs c) ((cooledAtProbe_step cfg).1 ha))
  · exact State.forall_put hs trivial
  · exact State.forall_put hs trivial
  · exact hs

/-- A step that reads a younger opening starts the future although the last answer was open. -/
theorem not_admitted_of_not_cooled {s s' : State T} {a : Label T} (ha : ¬ cooledAtProbe cfg s a)
    (h : (system T cfg).step s a = some s') : ¬ AllAdmitted cfg s' := by
  rcases next_cases h with ⟨c, q, rfl, -, -⟩ | ⟨c, b, g, pc, rfl, hr, rfl⟩ |
    ⟨c, g, outcome, rfl, -, -⟩ | ⟨c, g, rfl, -, -⟩ | ⟨d, rfl, -⟩
  · simp [cooledAtProbe] at ha
  · rw [cooledAtProbe_step, Classical.not_imp] at ha
    obtain ⟨hc, hcd⟩ := ha
    rw [hc] at hr
    obtain ⟨rfl, rfl, rfl⟩ : s.cells = b ∧ s.guard = g ∧ .awaiting ⟨.open, none⟩ = pc := by
      simpa [advance, hcd, resume] using hr
    intro hall
    have hadm := hall c ⟨.open, none⟩ (State.put_calls_self ..)
    simp [Admitted] at hadm
  · simp [cooledAtProbe] at ha
  · simp [cooledAtProbe] at ha
  · simp [cooledAtProbe] at ha

/-- In a run every future was admitted by the breaker if and only if no `execute` whose first
evaluation let it pass found an opening younger than the cool-down at the second one. -/
theorem admitted_iff_cooledAtProbe (cfg : BreakerConfig) (as : List (Label T)) (s : State T)
    (he : (system T cfg).exec (system T cfg).init as = some s) :
    (system T cfg).Throughout (AllAdmitted cfg) (system T cfg).init as ↔
      (system T cfg).Along (fun t a => cooledAtProbe cfg t a) (system T cfg).init as :=
  TransitionSystem.throughout_iff_along (fun _ => AllFair.admitted) (fun _ _ _ => AllFair.next)
    (fun _ _ _ _ => not_admitted_of_not_cooled) (fun _ => trivial) he

def probeAfterCooldown : List (Label Unit) :=
  openingBy 1 ++ [.tick 60, .call 0 .execute] ++ List.replicate 7 (.step 0)

theorem admitted_iff_cooledAtProbe_after_cooldown :
    ∃ s, (system Unit oneFailure).exec (system Unit oneFailure).init probeAfterCooldown = some s ∧
      (∃ g, s.calls 0 = .awaiting g) ∧ (system Unit oneFailure).Throughout (AllAdmitted oneFailure)
        (system Unit oneFailure).init probeAfterCooldown := by
  obtain ⟨s, he, hp⟩ := ((system Unit oneFailure).guard
      (fun t a => cooledAtProbe oneFailure t a)).exists_exec
    (s := (system Unit oneFailure).init) (r := probeAfterCooldown)
    (p := fun s => (s.calls 0).grant.isSome) (by decide +kernel)
  obtain ⟨hexec, halong⟩ := (system Unit oneFailure).exec_of_guard_exec he
  obtain ⟨g, hg⟩ := Option.isSome_iff_exists.1 hp
  exact ⟨s, hexec, ⟨g, grant_eq_some.1 hg⟩,
    (admitted_iff_cooledAtProbe oneFailure _ s hexec).2 halong⟩

/-- Between the two evaluations of an `execute` another call records the failure that opens the
breaker: the second answer is open and the future starts. -/
theorem openedBetween_starts_future : ∃ s, (system Unit oneFailure).exec
    (system Unit oneFailure).init
    ([.call 0 .execute, .step 0] ++ openingBy 1 ++ [.step 0, .step 0]) = some s ∧
      ¬ AllAdmitted oneFailure s := by
  obtain ⟨s, he, hp⟩ := (system Unit oneFailure).exists_exec
    (s := (system Unit oneFailure).init)
    (r := [.call 0 .execute, .step 0] ++ openingBy 1 ++ [.step 0, .step 0])
    (p := fun s => (s.calls 0).grant.any (fun g => g.answer == .open)) (by decide +kernel)
  refine ⟨s, he, fun hall => ?_⟩
  obtain ⟨g, hg, hopen⟩ := (Option.any_eq_true _ _).1 hp
  have hadm := hall 0 g (grant_eq_some.1 hg)
  rw [Admitted, eq_of_beq hopen] at hadm
  rcases hadm with h | ⟨h, -⟩ <;> cases h

end Rszero.Breaker
