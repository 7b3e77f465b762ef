import Rszero.BreakerSteps

/-!
# Who holds the write guard of the breaker's state

The program counter of a call tells whether it holds the guard and, if so, what the state cell
contains. The invariant `Held` makes the sections under the guard exclusive, and the state cell
changes only inside such a section.
-/

namespace Rszero.Breaker

variable {T : Type} {cfg : BreakerConfig}

def heldState : Pc T → Option BreakerState
  | .storeHalfOpen _ | .fetchSuccess _ | .compareSuccess _ _ => some .halfOpen
  | .storeClosed _ | .readWindow _ | .clearOpenedAt | .clearWindow | .storeReset => some .closed
  | .stampOpen _ _ _ | .storeOpen _ => some .open
  | _ => none

@[simp] theorem heldState_resume (k : Caller T) (answer : BreakerState) :
    heldState (resume k answer) = none := by
  cases k with
  | executeIsOpen => by_cases h : answer = .open <;> simp [resume, h, heldState]
  | executeProbe => by_cases h : answer = .halfOpen <;> simp [resume, h, heldState]
  | isOpen => rfl
  | isClosed => rfl
  | record ok o => rfl

@[simp] theorem heldState_finished (o : Origin T) : heldState (finished o) = none := by
  rcases o with _ | ⟨_, _ | _⟩ <;> rfl

@[simp] theorem heldState_entry (q : Request) : heldState (entry q : Pc T) = none := by
  cases q <;> rfl

/-- How one step of a call treats the guard: it does without it, takes it when it is free, keeps
it, or gives it back. The state cell changes only in the second and the third case. -/
theorem advance_held {now : ℕ} {c : CallId} {b b' : CircuitBreaker} {g g' : Option CallId}
    {pc pc' : Pc T} (h : advance cfg now c b g pc = some (b', g', pc')) :
    (heldState pc = none ∧ g' = g ∧ heldState pc' = none ∧ b'.state = b.state) ∨
    (heldState pc = none ∧ g = none ∧ g' = some c ∧ heldState pc' = some b'.state) ∨
    (heldState pc ≠ none ∧ g' = g ∧
      (heldState pc = some b.state → heldState pc' = some b'.state)) ∨
    (heldState pc ≠ none ∧ g' = none ∧ heldState pc' = none ∧ b'.state = b.state) := by
  revert h
  fun_cases advance cfg now c b g pc <;> intro h <;> cases h
  all_goals try simp only [heldState_resume, heldState_finished]
  all_goals simp_all [heldState]

structure Held (s : State T) : Prop where
  guard_iff : ∀ c, s.guard = some c ↔ heldState (s.calls c) ≠ none
  cell : ∀ c st, heldState (s.calls c) = some st → s.cells.state = st

namespace Held

variable {s s' : State T}

theorem initial (cfg : BreakerConfig) : Held (system T cfg).init where
  guard_iff c := by simp [system, heldState]
  cell c st h := by cases h

theorem unique (hs : Held s) {c d : CallId} (hc : heldState (s.calls c) ≠ none)
    (hd : heldState (s.calls d) ≠ none) : c = d :=
  Option.some.inj (((hs.guard_iff c).2 hc).symm.trans ((hs.guard_iff d).2 hd))

theorem free (hs : Held s) (hg : s.guard = none) (c : CallId) : heldState (s.calls c) = none := by
  by_contra hc
  rw [(hs.guard_iff c).2 hc] at hg
  cases hg

theorem put (hs : Held s) {c : CallId} {pc : Pc T} (hc : heldState (s.calls c) = none)
    (hpc : heldState pc = none) : Held (s.put c pc) where
  guard_iff d := by
    by_cases hd : d = c
    · subst hd
      simpa [State.put, hpc, hc] using hs.guard_iff d
    · simpa [State.put, hd] using hs.guard_iff d
  cell d st h := by
    by_cases hd : d = c
    · subst hd
      simp [State.put, hpc] at h
    · exact hs.cell d st (by simpa [State.put, hd] using h)

theorem advance (hs : Held s) {c : CallId} {b : CircuitBreaker} {g : Option CallId} {pc : Pc T}
    (h : advance cfg s.now c s.cells s.guard (s.calls c) = some (b, g, pc)) :
    Held ({ s with cells := b, guard := g }.put c pc) := by
  have hother {d : CallId} (hd : d ≠ c) (hc : heldState (s.calls c) ≠ none) :
      heldState (s.calls d) = none := by
    by_contra hne
    exact hd (hs.unique hne hc)
  rcases advance_held h with ⟨hc, hg, hpc, hst⟩ | ⟨hc, hg, hg', hpc⟩ | ⟨hc, hg, hpc⟩ |
    ⟨hc, hg, hpc, hst⟩
  · have hcells : Held { s with cells := b, guard := g } :=
      ⟨fun d => hg ▸ hs.guard_iff d, fun d st hd => hst.trans (hs.cell d st hd)⟩
    exact hcells.put hc hpc
  · constructor
    · intro d
      by_cases hd : d = c
      · subst hd
        simp [State.put, hg', hpc]
      · simp [State.put, hd, hg', Ne.symm hd, hs.free hg d]
    · intro d st h
      by_cases hd : d = c
      · subst hd
        simpa [State.put, hpc] using h
      · simp [State.put, hd, hs.free hg d] at h
  · have hown := (hs.guard_iff c).2 hc
    obtain ⟨st, hst⟩ := Option.ne_none_iff_exists'.1 hc
    have hnew := hpc (by rw [hst, hs.cell c st hst])
    constructor
    · intro d
      by_cases hd : d = c
      · subst hd
        simp [State.put, hg, hown, hnew]
      · simp [State.put, hd, hg, hown, Ne.symm hd, hother hd hc]
    · intro d st h
      by_cases hd : d = c
      · subst hd
        simpa [State.put, hnew] using h
      · simp [State.put, hd, hother hd hc] at h
  · constructor
    · intro d
      by_cases hd : d = c
      · subst hd
        simp [State.put, hg, hpc]
      · simp [State.put, hd, hg, hother hd hc]
    · intro d st h
      by_cases hd : d = c
      · subst hd
        simp [State.put, hpc] at h
      · simp [State.put, hd, hother hd hc] at h

theorem next (hs : Held s) {a : Label T} (h : (system T cfg).step s a = some s') : Held s' := by
  rcases next_cases h with ⟨c, q, -, hc, rfl⟩ | ⟨c, b, g, pc, -, hr, rfl⟩ |
    ⟨c, g, outcome, -, hc, rfl⟩ | ⟨c, g, -, hc, rfl⟩ | ⟨d, -, rfl⟩
  · exact hs.put (by rw [hc]; rfl) (heldState_entry q)
  · exact hs.advance hr
  · exact hs.put (by rw [hc]; rfl) rfl
  · exact hs.put (by rw [hc]; rfl) rfl
  · exact ⟨hs.guard_iff, hs.cell⟩

end Held

end Rszero.Breaker
