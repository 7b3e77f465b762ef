import Mathlib.Algebra.Order.Field.Basic
import Mathlib.Algebra.Order.Field.Rat
import Mathlib.Logic.Function.Basic
import Mathlib.Tactic.Linarith
import Rszero.TransitionSystem

/-!
# The counters of the dashboard

Requests and errors are counted in two atomics. A collect loads the total and then the errors, and
between the loads other threads count on. What the dashboard shows should have no more errors than
requests: it does when no error that is recorded between the loads goes beyond the loaded total.
Counters wrap at 64 bits; the rate is exact.
-/

namespace Rszero.Dashboard

/-- What `AppInfo::collect` and `MetricsSnapshot::collect` load. -/
structure Snapshot where
  total_requests : UInt64
  error_requests : UInt64

namespace Snapshot

def errorRate (s : Snapshot) : ℚ :=
  if s.total_requests > 0 then (s.error_requests.toNat / s.total_requests.toNat : ℚ) * 100 else 0

/-- The difference that `app_fragment_handler` shows; `none` is an underflow. -/
def okRequests (s : Snapshot) : Option UInt64 :=
  if s.error_requests ≤ s.total_requests then some (s.total_requests - s.error_requests) else none

end Snapshot

abbrev CollectId := ℕ

inductive Collect
  | loadedTotal (total : UInt64)
  | collected (snapshot : Snapshot)

/-- `open_requests` have been recorded and have recorded no error. -/
structure State where
  total_requests : UInt64
  error_requests : UInt64
  open_requests : ℕ
  collects : CollectId → Option Collect

inductive Label
  | recordRequest
  | recordError
  | loadTotal (i : CollectId)
  | loadErrors (i : CollectId)

/-- A request records an error after itself and at most once. -/
def step (s : State) : Label → Option State
  | .recordRequest =>
      some { s with total_requests := s.total_requests + 1, open_requests := s.open_requests + 1 }
  | .recordError =>
      if s.open_requests = 0 then none
      else some { s with
        error_requests := s.error_requests + 1, open_requests := s.open_requests - 1 }
  | .loadTotal i =>
      match s.collects i with
      | none => some { s with
          collects := Function.update s.collects i (some (.loadedTotal s.total_requests)) }
      | some _ => none
  | .loadErrors i =>
      match s.collects i with
      | some (.loadedTotal total) => some { s with
          collects := Function.update s.collects i (some (.collected ⟨total, s.error_requests⟩)) }
      | _ => none

def system : TransitionSystem State Label where
  init := ⟨0, 0, 0, fun _ => none⟩
  step := step

/-- The requests can be counted, and no error is recorded that goes beyond the total of a collect
that has loaded no errors yet. -/
def Within (s : State) : Label → Prop
  | .recordRequest => s.total_requests.toNat + 1 < 2 ^ 64
  | .recordError => ∀ i total, s.collects i = some (.loadedTotal total) → s.error_requests < total
  | _ => True

/-- No more errors than requests, so the difference does not underflow and the rate is at most
100%. -/
structure Snapshot.Sound (s : Snapshot) : Prop where
  le : s.error_requests ≤ s.total_requests
  ok : s.okRequests = some (s.total_requests - s.error_requests)
  rate : s.errorRate ≤ 100

variable {s s' : State} {i : CollectId} {total : UInt64} {snapshot : Snapshot}

theorem Snapshot.sound_of_le (h : snapshot.error_requests ≤ snapshot.total_requests) :
    snapshot.Sound where
  le := h
  ok := if_pos h
  rate := by
    rw [errorRate]
    split_ifs with hpos
    · have htotal : (0 : ℚ) < snapshot.total_requests.toNat :=
        Nat.cast_pos.2 (UInt64.lt_iff_toNat_lt.1 hpos)
      have hle : (snapshot.error_requests.toNat : ℚ) ≤ snapshot.total_requests.toNat :=
        Nat.cast_le.2 (UInt64.le_iff_toNat_le.1 h)
      have hone : (snapshot.error_requests.toNat / snapshot.total_requests.toNat : ℚ) ≤ 1 :=
        (div_le_one htotal).2 hle
      linarith
    · norm_num

theorem recordError_cases (h : step s .recordError = some s') :
    0 < s.open_requests ∧ s' = { s with
      error_requests := s.error_requests + 1, open_requests := s.open_requests - 1 } := by
  rw [step] at h
  split_ifs at h with hopen
  exact ⟨by omega, (Option.some.inj h).symm⟩

theorem loadTotal_cases (h : step s (.loadTotal i) = some s') :
    s.collects i = none ∧ s' = { s with
      collects := Function.update s.collects i (some (.loadedTotal s.total_requests)) } := by
  rw [step] at h
  split at h
  · rename_i hnone
    exact ⟨hnone, (Option.some.inj h).symm⟩
  · cases h

theorem loadErrors_cases (h : step s (.loadErrors i) = some s') :
    ∃ total, s.collects i = some (.loadedTotal total) ∧ s' = { s with
      collects :=
        Function.update s.collects i (some (.collected ⟨total, s.error_requests⟩)) } := by
  rw [step] at h
  split at h
  · rename_i total hloaded
    exact ⟨total, hloaded, (Option.some.inj h).symm⟩
  · cases h

/-- The total counts the errors and the open requests, and no total that has been loaded is below
the errors. -/
structure Counted (s : State) : Prop where
  total : s.total_requests.toNat = s.error_requests.toNat + s.open_requests
  loaded : ∀ i total, s.collects i = some (.loadedTotal total) → s.error_requests ≤ total
  collected : ∀ i snapshot, s.collects i = some (.collected snapshot) →
    snapshot.error_requests ≤ snapshot.total_requests

theorem counted_init : Counted system.init := ⟨rfl, nofun, nofun⟩

theorem Counted.recordRequest (hs : Counted s) (hwithin : Within s .recordRequest)
    (h : step s .recordRequest = some s') : Counted s' := by
  obtain rfl := Option.some.inj h
  have hfit : s.total_requests.toNat + 1 < 2 ^ 64 := hwithin
  refine ⟨?_, hs.loaded, hs.collected⟩
  have htotal := hs.total
  change (s.total_requests + 1).toNat = s.error_requests.toNat + (s.open_requests + 1)
  rw [UInt64.toNat_add, UInt64.toNat_one, Nat.mod_eq_of_lt hfit]
  omega

theorem Counted.toNat_error_succ (hs : Counted s) (hopen : 0 < s.open_requests) :
    (s.error_requests + 1).toNat = s.error_requests.toNat + 1 := by
  have hbound : s.total_requests.toNat < 2 ^ 64 := s.total_requests.toNat_lt
  have htotal := hs.total
  rw [UInt64.toNat_add, UInt64.toNat_one, Nat.mod_eq_of_lt (by omega)]

theorem Counted.recordError (hs : Counted s) (hwithin : Within s .recordError)
    (h : step s .recordError = some s') : Counted s' := by
  obtain ⟨hopen, rfl⟩ := recordError_cases h
  have hsucc := hs.toNat_error_succ hopen
  refine ⟨?_, fun i total hloaded => ?_, hs.collected⟩
  · have htotal := hs.total
    change s.total_requests.toNat = (s.error_requests + 1).toNat + (s.open_requests - 1)
    omega
  · have hlt := UInt64.lt_iff_toNat_lt.1 (hwithin i total hloaded)
    change s.error_requests + 1 ≤ total
    rw [UInt64.le_iff_toNat_le, hsucc]
    exact hlt

theorem eq_or_of_update {collects : CollectId → Option Collect} {j : CollectId}
    {collect collect' : Collect}
    (h : Function.update collects i (some collect) j = some collect') :
    collect = collect' ∨ collects j = some collect' := by
  by_cases hji : j = i
  · subst hji
    rw [Function.update_self] at h
    exact .inl (Option.some.inj h)
  · rw [Function.update_of_ne hji] at h
    exact .inr h

/-- A collect changes what it has loaded, and nothing else. -/
theorem Counted.update (hs : Counted s) {collect : Collect}
    (hloaded : ∀ total, collect = .loadedTotal total → s.error_requests ≤ total)
    (hcollected : ∀ snapshot, collect = .collected snapshot →
      snapshot.error_requests ≤ snapshot.total_requests) :
    Counted { s with collects := Function.update s.collects i (some collect) } where
  total := hs.total
  loaded _ total hj := (eq_or_of_update hj).elim (hloaded total) (hs.loaded _ total)
  collected _ snapshot hj :=
    (eq_or_of_update hj).elim (hcollected snapshot) (hs.collected _ snapshot)

theorem Counted.error_le_total (hs : Counted s) : s.error_requests ≤ s.total_requests := by
  have htotal := hs.total
  rw [UInt64.le_iff_toNat_le]
  omega

theorem counted_step {a : Label} (hs : Counted s) (hwithin : Within s a)
    (h : step s a = some s') : Counted s' := by
  cases a with
  | recordRequest => exact hs.recordRequest hwithin h
  | recordError => exact hs.recordError hwithin h
  | loadTotal i =>
      obtain ⟨-, rfl⟩ := loadTotal_cases h
      refine hs.update (fun total htotal => ?_) nofun
      exact Collect.loadedTotal.inj htotal ▸ hs.error_le_total
  | loadErrors i =>
      obtain ⟨total, hloaded, rfl⟩ := loadErrors_cases h
      refine hs.update nofun (fun snapshot hsnapshot => ?_)
      exact Collect.collected.inj hsnapshot ▸ hs.loaded i total hloaded

/-- An error beyond the loaded total is one error too many once the collect loads the errors. -/
theorem exceeds_of_not_within (hs : Counted s) (h : step s .recordError = some s')
    (hloaded : s.collects i = some (.loadedTotal total)) (hle : total ≤ s.error_requests) :
    ∃ s'' snapshot, step s' (.loadErrors i) = some s'' ∧
      s''.collects i = some (.collected snapshot) ∧
      snapshot.total_requests < snapshot.error_requests := by
  obtain ⟨hopen, rfl⟩ := recordError_cases h
  have hsucc := hs.toNat_error_succ hopen
  refine ⟨_, ⟨total, s.error_requests + 1⟩, by rw [step, hloaded],
    Function.update_self .., ?_⟩
  rw [UInt64.lt_iff_toNat_lt, hsucc]
  exact Nat.lt_succ_of_le (UInt64.le_iff_toNat_le.1 hle)

/-- All that is collected is sound in the runs that keep within the loaded totals; an error that
does not is shown by the collect it goes beyond. -/
theorem collected_sound (h : system.Reachable Within s) :
    (∀ i snapshot, s.collects i = some (.collected snapshot) → snapshot.Sound) ∧
      ∀ i total s', s.collects i = some (.loadedTotal total) → total ≤ s.error_requests →
        step s .recordError = some s' → ∃ s'' snapshot, step s' (.loadErrors i) = some s'' ∧
          s''.collects i = some (.collected snapshot) ∧ ¬ snapshot.Sound := by
  have hs : Counted s := h.invariant counted_init (fun s a s' hs => counted_step hs)
  refine ⟨fun i snapshot hsnapshot => Snapshot.sound_of_le (hs.collected i snapshot hsnapshot), ?_⟩
  intro i total s' hloaded hle hstep
  obtain ⟨s'', snapshot, hload, hcollected, hlt⟩ := exceeds_of_not_within hs hstep hloaded hle
  exact ⟨s'', snapshot, hload, hcollected, fun hsound => UInt64.not_lt.2 hsound.le hlt⟩

/-- A failed request and a collect after it. -/
theorem collected_sound_failure : (⟨1, 1⟩ : Snapshot).Sound := by
  have hrequest : system.Reachable Within ⟨1, 0, 1, fun _ => none⟩ :=
    .step (a := .recordRequest) .init (by decide : (0 : UInt64).toNat + 1 < 2 ^ 64) rfl
  have herror : system.Reachable Within ⟨1, 1, 0, fun _ => none⟩ :=
    .step (a := .recordError) hrequest nofun rfl
  have hload := TransitionSystem.Reachable.step (a := Label.loadTotal 0) herror trivial rfl
  have hcollect := TransitionSystem.Reachable.step (a := Label.loadErrors 0) hload trivial rfl
  exact (collected_sound hcollect).1 0 ⟨1, 1⟩ rfl

/-- Two errors between the loads of a collect: the difference underflows and the rate is 200%. -/
theorem not_sound_overtaken :
    ∃ s, system.exec system.init [.recordRequest, .loadTotal 0, .recordRequest, .recordError,
        .recordError, .loadErrors 0] = some s ∧
      s.collects 0 = some (.collected ⟨1, 2⟩) ∧ (⟨1, 2⟩ : Snapshot).okRequests = none ∧
      (⟨1, 2⟩ : Snapshot).errorRate = 200 ∧ ¬ (⟨1, 2⟩ : Snapshot).Sound := by
  have hunder : (⟨1, 2⟩ : Snapshot).okRequests = none := rfl
  refine ⟨_, rfl, rfl, hunder, ?_, fun h => ?_⟩
  · rw [Snapshot.errorRate, if_pos (by decide)]
    change ((2 : ℕ) / (1 : ℕ) : ℚ) * 100 = 200
    norm_num
  · exact absurd (hunder.symm.trans h.ok) nofun

end Rszero.Dashboard
