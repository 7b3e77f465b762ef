import Rszero.BreakerGuard

/-!
# How long the breaker stays open

`evaluate_state` reads the state, then `opened_at`, and takes the write lock in a third step, where
it looks at the state again but not at the stamp. `record_failure` writes the state and the stamp
in two steps under the guard. The invariant `Stamped` ties the stamp of an open breaker to the
instant of the last transition into the open state, which the history variable keeps.
-/

namespace Rszero.Breaker

variable {T : Type}

/-- The instant of the last transition into the open state, and for each transition from open to
half-open that instant together with its own. -/
structure Openings where
  last : Option ℕ
  left : List (Option ℕ × ℕ)

def noteOpenings (m : Openings) (s : State T) (_ : Label T) (s' : State T) : Openings where
  last := if s.cells.state ≠ .open ∧ s'.cells.state = .open then some s.now else m.last
  left := if s.cells.state = .open ∧ s'.cells.state = .halfOpen then (m.last, s.now) :: m.left
    else m.left

def withOpenings (T : Type) (cfg : BreakerConfig) :
    TransitionSystem (State T × Openings) (Label T) :=
  (system T cfg).observe ⟨none, []⟩ noteOpenings

/-- When the write lock is granted to `evaluate_state` and the breaker is open, the cool-down has
passed since the instant that is then in `opened_at`. -/
def cooledAtGrant (cfg : BreakerConfig) (x : State T × Openings) : Label T → Bool
  | .step c => match x.1.calls c with
      | .lockHalfOpen _ =>
          x.1.cells.state != .open || cooledDown cfg x.1.now x.1.cells.openedAt
      | _ => true
  | _ => true

/-- The instant that the call is about to write into `opened_at`. -/
def Pc.stamp : Pc T → Option ℕ
  | .stampOpen _ _ t => some t
  | _ => none

/-- The last transition into the open state is not later than the stamp, or the call that made it
has yet to write the stamp. -/
def Stamped (x : State T × Openings) : Prop :=
  x.1.cells.state = .open → ∃ t, x.2.last = some t ∧ t ≤ x.1.now ∧
    (∀ c u, (x.1.calls c).stamp = some u → t = u) ∧
      ((∃ c, (x.1.calls c).stamp ≠ none) ∨ ∃ u, x.1.cells.openedAt = some u ∧ t ≤ u)

variable {cfg : BreakerConfig}

@[simp] theorem stamp_resume (k : Caller T) (answer : BreakerState) :
    (resume k answer).stamp = none := by
  cases k with
  | executeIsOpen => by_cases h : answer = .open <;> simp [resume, h, Pc.stamp]
  | executeProbe => by_cases h : answer = .halfOpen <;> simp [resume, h, Pc.stamp]
  | isOpen => rfl
  | isClosed => rfl
  | record ok o => rfl

@[simp] theorem stamp_finished (o : Origin T) : (finished o).stamp = none := by
  rcases o with _ | ⟨_, _ | _⟩ <;> rfl

@[simp] theorem stamp_entry (q : Request) : (entry q : Pc T).stamp = none := by
  cases q <;> rfl

theorem heldState_of_stamp {pc : Pc T} (h : pc.stamp ≠ none) : heldState pc = some .open := by
  cases pc with
  | stampOpen o probing t => rfl
  | _ => exact absurd rfl h

theorem advance_open {now : ℕ} {c : CallId} {b b' : CircuitBreaker} {g g' : Option CallId}
    {pc pc' : Pc T} (h : advance cfg now c b g pc = some (b', g', pc'))
    (ho : b'.state = .open) :
    ((b.state = .halfOpen ∨ heldState pc = some .closed) ∧ pc'.stamp = some now) ∨
    (b.state = .open ∧ ∃ u, pc.stamp = some u ∧ b'.openedAt = some u ∧ pc'.stamp = none) ∨
    (b.state = .open ∧ b'.openedAt = b.openedAt ∧ pc.stamp = none ∧ pc'.stamp = none) ∨
    (b.state = .open ∧ pc = .clearOpenedAt) := by
  revert h
  fun_cases advance cfg now c b g pc <;> intro h <;> cases h
  all_goals try simp only [stamp_resume, stamp_finished]
  all_goals simp_all [heldState, Pc.stamp]

/-- The only transition from open to half-open is made by the write lock of `evaluate_state`. -/
theorem advance_leaves_open {now : ℕ} {c : CallId} {b b' : CircuitBreaker}
    {g g' : Option CallId} {pc pc' : Pc T} (h : advance cfg now c b g pc = some (b', g', pc'))
    (ho : b.state = .open) (hh : b'.state = .halfOpen) :
    g = none ∧ ∃ k, pc = .lockHalfOpen k := by
  revert h
  fun_cases advance cfg now c b g pc <;> intro h <;> cases h
  all_goals simp_all

/-- A step of a call that does not write the stamp does not take `Stamped` away. -/
theorem Stamped.put {x : State T × Openings} (hx : Stamped x) {c : CallId} {pc : Pc T}
    (hc : (x.1.calls c).stamp = none) (hpc : pc.stamp = none) {m : Openings}
    (hm : m.last = x.2.last) : Stamped (x.1.put c pc, m) := by
  intro ho
  obtain ⟨t, hlast, hle, hstamps, hstamp⟩ := hx ho
  refine ⟨t, hm.trans hlast, hle, fun d u hd => ?_, hstamp.imp_left ?_⟩
  · by_cases hdc : d = c
    · rw [hdc, State.put_calls_self, hpc] at hd
      cases hd
    · rw [State.put_calls_of_ne _ _ hdc] at hd
      exact hstamps d u hd
  · rintro ⟨d, hd⟩
    have hdc : d ≠ c := fun he => hd (he ▸ hc)
    exact ⟨d, by rwa [State.put_calls_of_ne _ _ hdc]⟩

theorem open_of_stamp {s : State T} (hs : Held s) {c : CallId} {u : ℕ}
    (h : (s.calls c).stamp = some u) : s.cells.state = .open := by
  refine hs.cell c .open (heldState_of_stamp ?_)
  rw [h]
  exact Option.some_ne_none u

theorem Stamped.next {x y : State T × Openings} {a : Label T} (hs : Held x.1) (hx : Stamped x)
    (h : (withOpenings T cfg).step x a = some y) : Stamped y := by
  obtain ⟨hstep, hnote⟩ := TransitionSystem.observe_step_eq_some.1 h
  have hkept (ho : x.1.cells.state = y.1.cells.state) : y.2.last = x.2.last := by
    simp only [hnote, noteOpenings, ho]
    split_ifs with hn
    · exact absurd hn.2 hn.1
    · rfl
  obtain ⟨s', m⟩ := y
  rcases next_cases hstep with ⟨c, q, -, hc, rfl⟩ | ⟨c, b, g, pc, -, hr, rfl⟩ |
    ⟨c, g, outcome, -, hc, rfl⟩ | ⟨c, g, -, hc, rfl⟩ | ⟨d, -, rfl⟩
  · exact hx.put (by rw [hc]; rfl) (stamp_entry q) (hkept rfl)
  · intro ho
    rcases advance_open hr ho with ⟨hstate, hnow⟩ | ⟨hopen, u, hu, hstamp, hpc⟩ |
      ⟨hopen, hstamp, hc, hpc⟩ | ⟨hopen, hpc⟩
    · have hopen : x.1.cells.state ≠ .open := by
        rcases hstate with hhalf | hclosed
        · rw [hhalf]
          exact BreakerState.noConfusion
        · rw [hs.cell c .closed hclosed]
          exact BreakerState.noConfusion
      refine ⟨x.1.now, ?_, le_rfl, fun d u hd => ?_, .inl ⟨c, ?_⟩⟩
      · rw [hnote]
        exact if_pos ⟨hopen, ho⟩
      · by_cases hdc : d = c
        · rw [hdc, State.put_calls_self, hnow] at hd
          exact Option.some.inj hd
        · rw [State.put_calls_of_ne _ _ hdc] at hd
          exact absurd (open_of_stamp hs hd) hopen
      · rw [State.put_calls_self, hnow]
        exact Option.some_ne_none _
    · obtain ⟨t, hlast, hle, hstamps, -⟩ := hx hopen
      refine ⟨t, (hkept (hopen.trans ho.symm)).trans hlast, hle, fun d v hd => ?_,
        .inr ⟨u, hstamp, (hstamps c u hu).le⟩⟩
      by_cases hdc : d = c
      · rw [hdc, State.put_calls_self, hpc] at hd
        cases hd
      · rw [State.put_calls_of_ne _ _ hdc] at hd
        exact hstamps d v hd
    · refine Stamped.put (x := ({ x.1 with cells := b, guard := g }, x.2)) (fun _ => ?_) hc hpc
        (hkept (hopen.trans ho.symm)) ho
      rw [hstamp]
      exact hx hopen
    · have hclosed := hs.cell c .closed (by rw [hpc]; rfl)
      rw [hopen] at hclosed
      cases hclosed
  · exact hx.put (by rw [hc]; rfl) rfl (hkept rfl)
  · exact hx.put (by rw [hc]; rfl) rfl (hkept rfl)
  · intro ho
    obtain ⟨t, hlast, hle, hrest⟩ := hx ho
    exact ⟨t, (hkept rfl).trans hlast, hle.trans (Nat.le_add_right _ _), hrest⟩

/-- Every transition from open to half-open so far came at least the cool-down after the last
transition into the open state. -/
def CooldownKept (cfg : BreakerConfig) (m : Openings) : Prop :=
  ∀ p ∈ m.left, ∃ t, p.1 = some t ∧ t + cfg.cooldown ≤ p.2

theorem cooledAtGrant_step {x : State T × Openings} {c : CallId} {k : Caller T}
    (ha : cooledAtGrant cfg x (.step c)) (hc : x.1.calls c = .lockHalfOpen k)
    (ho : x.1.cells.state = .open) : cooledDown cfg x.1.now x.1.cells.openedAt := by
  simpa [cooledAtGrant, hc, ho] using ha

/-- A transition from open to half-open that meets the condition comes late enough. -/
theorem cooldown_passed {x y : State T × Openings} {a : Label T} (hs : Held x.1)
    (hx : Stamped x) (ha : cooledAtGrant cfg x a) (h : (system T cfg).step x.1 a = some y.1)
    (ho : x.1.cells.state = .open) (hh : y.1.cells.state = .halfOpen) :
    ∃ t, x.2.last = some t ∧ t + cfg.cooldown ≤ x.1.now := by
  have hsame (he : y.1.cells = x.1.cells) : False := by
    rw [he, ho] at hh
    cases hh
  rcases next_cases h with ⟨c, q, -, -, he⟩ | ⟨c, b, g, pc, rfl, hr, he⟩ |
    ⟨c, g, outcome, -, -, he⟩ | ⟨c, g, -, -, he⟩ | ⟨d, -, he⟩
  · exact (hsame (by rw [he]; rfl)).elim
  · rw [he] at hh
    obtain ⟨hg, k, hk⟩ := advance_leaves_open hr ho hh
    obtain ⟨u, hu, hcool⟩ := cooledDown_iff.1 (cooledAtGrant_step ha hk ho)
    obtain ⟨t, hlast, hle, -, ⟨d, hd⟩ | ⟨u', hu', htu⟩⟩ := hx ho
    · have hfree := hs.free hg d
      rw [heldState_of_stamp hd] at hfree
      cases hfree
    · obtain rfl := Option.some.inj (hu.symm.trans hu')
      exact ⟨t, hlast, by omega⟩
  · exact (hsame (by rw [he]; rfl)).elim
  · exact (hsame (by rw [he]; rfl)).elim
  · exact (hsame (by rw [he])).elim

theorem CooldownKept.next {x y : State T × Openings} {a : Label T} (hs : Held x.1)
    (hx : Stamped x) (hm : CooldownKept cfg x.2) (ha : cooledAtGrant cfg x a)
    (h : (withOpenings T cfg).step x a = some y) : CooldownKept cfg y.2 := by
  obtain ⟨hstep, hnote⟩ := TransitionSystem.observe_step_eq_some.1 h
  by_cases hleft : x.1.cells.state = .open ∧ y.1.cells.state = .halfOpen
  · have hl : y.2.left = (x.2.last, x.1.now) :: x.2.left := by rw [hnote]; exact if_pos hleft
    intro p hp
    rw [hl, List.mem_cons] at hp
    rcases hp with rfl | hp
    · exact cooldown_passed hs hx ha hstep hleft.1 hleft.2
    · exact hm p hp
  · have hl : y.2.left = x.2.left := by rw [hnote]; exact if_neg hleft
    intro p hp
    exact hm p (hl ▸ hp)

structure Cooling (cfg : BreakerConfig) (x : State T × Openings) : Prop where
  held : Held x.1
  stamped : Stamped x
  kept : CooldownKept cfg x.2

theorem Cooling.initial : Cooling cfg (withOpenings T cfg).init where
  held := .initial cfg
  stamped ho := by cases ho
  kept p hp := by cases hp

theorem Cooling.next {x y : State T × Openings} {a : Label T} (hx : Cooling cfg x)
    (ha : cooledAtGrant cfg x a) (h : (withOpenings T cfg).step x a = some y) :
    Cooling cfg y where
  held := hx.held.next (TransitionSystem.observe_step_eq_some.1 h).1
  stamped := hx.stamped.next hx.held h
  kept := hx.kept.next hx.held hx.stamped ha h

/-- In a run in which every grant of the write lock to `evaluate_state` finds the breaker not open
or its stamp older than the cool-down, the breaker stays open for the cool-down each time. -/
theorem cooldown_kept_of_cooledAtGrant (cfg : BreakerConfig) {x : State T × Openings}
    (hx : (withOpenings T cfg).Reachable (fun y a => cooledAtGrant cfg y a) x) :
    CooldownKept cfg x.2 := by
  have hinv : Cooling cfg x := by
    refine hx.invariant .initial ?_
    intro y a z hy ha hstep
    exact hy.next ha hstep
  exact hinv.kept

theorem cooldown_kept_of_cooledAtGrant_once :
    ∃ x, (withOpenings Unit oneFailure).Reachable (fun y a => cooledAtGrant oneFailure y a) x ∧
      x.2.left = [(some 0, 60)] ∧ CooldownKept oneFailure x.2 := by
  obtain ⟨x, he, hp⟩ := ((withOpenings Unit oneFailure).guard
      (fun y a => cooledAtGrant oneFailure y a)).exists_exec
    (s := (withOpenings Unit oneFailure).init)
    (r := openingBy 0 ++ [.tick 60, .call 1 .isOpen, .step 1, .step 1, .step 1])
    (p := fun x => x.2.left == [(some 0, 60)]) (by decide +kernel)
  have hx := (withOpenings Unit oneFailure).reachable_of_guard_exec .init he
  exact ⟨x, hx, by simpa using hp, cooldown_kept_of_cooledAtGrant oneFailure hx⟩

/-- Two callers pass the check on the first opening. The first makes the breaker half-open, a
failure opens it again, and then the second is granted the lock and makes it half-open at once. -/
theorem reopened_left_at_once :
    ∃ x, (withOpenings Unit oneFailure).Reachable (fun _ _ => True) x ∧
      ¬ CooldownKept oneFailure x.2 := by
  obtain ⟨x, he, hp⟩ := (withOpenings Unit oneFailure).exists_exec
    (s := (withOpenings Unit oneFailure).init)
    (r := openingBy 0 ++ [.tick 60, .call 1 .isOpen, .step 1, .step 1, .call 2 .isOpen, .step 2,
      .step 2, .step 1, .step 1] ++ openingBy 3 ++ [.step 2])
    (p := fun x => x.2.left.any (fun p => p == (some 60, 60))) (by decide +kernel)
  refine ⟨x, TransitionSystem.Reachable.exec _ .init (fun _ _ => trivial) he, fun hm => ?_⟩
  obtain ⟨p, hp, heq⟩ := List.any_eq_true.1 hp
  obtain rfl := eq_of_beq heq
  obtain ⟨t, ht, hle⟩ := hm _ hp
  obtain rfl := Option.some.inj ht
  simp [oneFailure] at hle

end Rszero.Breaker
