import Mathlib.Data.List.Count
import Mathlib.Data.List.Nodup
import Rszero.FifoQueues
import Rszero.TransitionSystem

/-!
# Work queues

Values wait in queues, one for each key, and workers take them from the front. A worker finishes
what it holds, gives it back into its queue, or loses it. Whatever the workers do, a value is in as
many places as it was published times, and what is taken is taken in the order of the queue as long
as nothing is given back elsewhere than at the end.
-/

namespace Rszero

/-- What went through the queues. What is given back enters a second time. -/
structure WorkLog (K V : Type*) where
  published : FifoQueues K V
  entered : FifoQueues K V
  taken : FifoQueues K V
  finished : FifoQueues K V
  lost : FifoQueues K V

namespace WorkLog

variable {K V : Type*} [DecidableEq K] (log : WorkLog K V) (k : K) (v : V)

def empty : WorkLog K V := ⟨.empty, .empty, .empty, .empty, .empty⟩

def publish : WorkLog K V :=
  { log with published := log.published.enqueue k v, entered := log.entered.enqueue k v }

def take : WorkLog K V := { log with taken := log.taken.enqueue k v }

def finish : WorkLog K V := { log with finished := log.finished.enqueue k v }

def giveBack : WorkLog K V := { log with entered := log.entered.enqueue k v }

def lose : WorkLog K V := { log with lost := log.lost.enqueue k v }

end WorkLog

/-- Each worker holds one value at most. -/
structure WorkQueue (K V : Type*) where
  waiting : FifoQueues K V
  held : List (Option (K × V))
  log : WorkLog K V

namespace FifoQueues

variable {K V : Type*} [DecidableEq K] [DecidableEq V] (q : FifoQueues K V) (k k' : K) (v v' : V)

/-- A value put in with `n` others before it. -/
def insert (n : ℕ) : FifoQueues K V :=
  Function.update q k ((q k).take n ++ v :: (q k).drop n)

omit [DecidableEq V] in
theorem dequeue_of_head?_eq_none (h : (q k).head? = none) : q.dequeue k = q := by
  rw [dequeue, List.head?_eq_none_iff.1 h, List.tail_nil, ← List.head?_eq_none_iff.1 h,
    Function.update_eq_self]

omit [DecidableEq V] in
theorem enqueue_inj {q q' : FifoQueues K V} {k : K} {v : V} :
    q.enqueue k v = q'.enqueue k v ↔ q = q' := by
  refine ⟨fun h => funext fun k' => ?_, fun h => h ▸ rfl⟩
  have hk' := congrFun h k'
  by_cases hk : k' = k
  · subst hk
    simpa using hk'
  · rwa [enqueue_of_ne _ _ hk, enqueue_of_ne _ _ hk] at hk'

omit [DecidableEq V] in
theorem insert_length : q.insert k v (q k).length = q.enqueue k v := by
  simp [insert, enqueue]

theorem count_enqueue : (q.enqueue k v k').count v' =
    (q k').count v' + if k = k' ∧ v = v' then 1 else 0 := by
  by_cases hk : k' = k
  · subst hk
    simp [List.count_singleton]
  · rw [enqueue_of_ne q k hk, if_neg (fun h => hk h.1.symm), Nat.add_zero]

theorem count_insert (n : ℕ) : (q.insert k v n k').count v' =
    (q k').count v' + if k = k' ∧ v = v' then 1 else 0 := by
  by_cases hk : k' = k
  · subst hk
    have hsplit : (q k').count v' = ((q k').take n).count v' + ((q k').drop n).count v' := by
      rw [← List.count_append, List.take_append_drop]
    rw [insert, Function.update_self, List.count_append, List.count_cons, hsplit]
    simp only [beq_iff_eq, true_and]
    omega
  · rw [insert, Function.update_of_ne hk, if_neg (fun h => hk h.1.symm), Nat.add_zero]

theorem count_dequeue {rest : List V} (h : q k = v :: rest) : (q k').count v' =
    (q.dequeue k k').count v' + if k = k' ∧ v = v' then 1 else 0 := by
  by_cases hk : k' = k
  · subst hk
    rw [dequeue_self, h, List.tail_cons, List.count_cons]
    simp
  · rw [dequeue_of_ne q k hk, if_neg (fun h => hk h.1.symm), Nat.add_zero]

end FifoQueues

namespace WorkQueue

variable {K V : Type*} [DecidableEq K]

/-- `serve` is a value that is taken and finished at once, `discard` one that is taken and lost at
once, and `giveBack i n` puts what the worker holds behind the first `n` that wait. -/
inductive Label (K V : Type*)
  | publish (k : K) (v : V)
  | hire
  | serve (k : K)
  | discard (k : K)
  | take (i : ℕ) (k : K)
  | finish (i : ℕ)
  | giveBack (i n : ℕ)
  | lose (i : ℕ)

def Label.Loses : Label K V → Prop
  | .discard _ | .lose _ => True
  | _ => False

def empty : WorkQueue K V := ⟨.empty, [], .empty⟩

def step (q : WorkQueue K V) : Label K V → Option (WorkQueue K V)
  | .publish k v => some ⟨q.waiting.enqueue k v, q.held, q.log.publish k v⟩
  | .hire => some { q with held := q.held ++ [none] }
  | .serve k =>
      match (q.waiting k).head? with
      | some v => some ⟨q.waiting.dequeue k, q.held, (q.log.take k v).finish k v⟩
      | none => none
  | .discard k =>
      match (q.waiting k).head? with
      | some v => some ⟨q.waiting.dequeue k, q.held, (q.log.take k v).lose k v⟩
      | none => none
  | .take i k =>
      match q.held[i]?, (q.waiting k).head? with
      | some none, some v =>
          some ⟨q.waiting.dequeue k, q.held.set i (some (k, v)), q.log.take k v⟩
      | _, _ => none
  | .finish i =>
      match q.held[i]? with
      | some (some (k, v)) => some ⟨q.waiting, q.held.set i none, q.log.finish k v⟩
      | _ => none
  | .giveBack i n =>
      match q.held[i]? with
      | some (some (k, v)) =>
          some ⟨q.waiting.insert k v n, q.held.set i none, q.log.giveBack k v⟩
      | _ => none
  | .lose i =>
      match q.held[i]? with
      | some (some (k, v)) => some ⟨q.waiting, q.held.set i none, q.log.lose k v⟩
      | _ => none

def system : TransitionSystem (WorkQueue K V) (Label K V) := ⟨empty, step⟩

variable {q q' : WorkQueue K V} {a : Label K V}

/-- What a step does. -/
theorem step_cases (h : q.step a = some q') :
    (∃ k v, a = .publish k v ∧ q' = ⟨q.waiting.enqueue k v, q.held, q.log.publish k v⟩) ∨
    (a = .hire ∧ q' = { q with held := q.held ++ [none] }) ∨
    (∃ k v rest, a = .serve k ∧ q.waiting k = v :: rest ∧
      q' = ⟨q.waiting.dequeue k, q.held, (q.log.take k v).finish k v⟩) ∨
    (∃ k v rest, a = .discard k ∧ q.waiting k = v :: rest ∧
      q' = ⟨q.waiting.dequeue k, q.held, (q.log.take k v).lose k v⟩) ∨
    (∃ i k v rest, a = .take i k ∧ q.held[i]? = some none ∧ q.waiting k = v :: rest ∧
      q' = ⟨q.waiting.dequeue k, q.held.set i (some (k, v)), q.log.take k v⟩) ∨
    ∃ i k v, q.held[i]? = some (some (k, v)) ∧
      ((a = .finish i ∧ q' = ⟨q.waiting, q.held.set i none, q.log.finish k v⟩) ∨
      (∃ n, a = .giveBack i n ∧
        q' = ⟨q.waiting.insert k v n, q.held.set i none, q.log.giveBack k v⟩) ∨
      (a = .lose i ∧ q' = ⟨q.waiting, q.held.set i none, q.log.lose k v⟩)) := by
  cases a with
  | publish k v => exact .inl ⟨k, v, rfl, (Option.some.inj h).symm⟩
  | hire => exact .inr (.inl ⟨rfl, (Option.some.inj h).symm⟩)
  | serve k =>
      simp only [step] at h
      split at h
      · rename_i v hhead
        obtain ⟨rest, hrest⟩ := List.head?_eq_some_iff.1 hhead
        exact .inr (.inr (.inl ⟨k, v, rest, rfl, hrest, (Option.some.inj h).symm⟩))
      · cases h
  | discard k =>
      simp only [step] at h
      split at h
      · rename_i v hhead
        obtain ⟨rest, hrest⟩ := List.head?_eq_some_iff.1 hhead
        exact .inr (.inr (.inr (.inl ⟨k, v, rest, rfl, hrest, (Option.some.inj h).symm⟩)))
      · cases h
  | take i k =>
      simp only [step] at h
      split at h
      · rename_i v hheld hhead
        obtain ⟨rest, hrest⟩ := List.head?_eq_some_iff.1 hhead
        exact .inr (.inr (.inr (.inr (.inl
          ⟨i, k, v, rest, rfl, hheld, hrest, (Option.some.inj h).symm⟩))))
      · cases h
  | finish i =>
      simp only [step] at h
      split at h
      · rename_i k v hheld
        exact .inr (.inr (.inr (.inr (.inr
          ⟨i, k, v, hheld, .inl ⟨rfl, (Option.some.inj h).symm⟩⟩))))
      · cases h
  | giveBack i n =>
      simp only [step] at h
      split at h
      · rename_i k v hheld
        exact .inr (.inr (.inr (.inr (.inr
          ⟨i, k, v, hheld, .inr (.inl ⟨n, rfl, (Option.some.inj h).symm⟩)⟩))))
      · cases h
  | lose i =>
      simp only [step] at h
      split at h
      · rename_i k v hheld
        exact .inr (.inr (.inr (.inr (.inr
          ⟨i, k, v, hheld, .inr (.inr ⟨rfl, (Option.some.inj h).symm⟩)⟩))))
      · cases h

theorem exec_singleton : system.exec q [a] = q.step a := by
  simp [TransitionSystem.exec, system]

theorem step_serve {k : K} {v : V} (h : (q.waiting k).head? = some v) : q.step (.serve k) =
    some ⟨q.waiting.dequeue k, q.held, (q.log.take k v).finish k v⟩ := by
  simp [step, h]

theorem step_discard {k : K} {v : V} (h : (q.waiting k).head? = some v) : q.step (.discard k) =
    some ⟨q.waiting.dequeue k, q.held, (q.log.take k v).lose k v⟩ := by
  simp [step, h]

theorem step_take {i : ℕ} {k : K} {v : V} (hi : q.held[i]? = some none)
    (h : (q.waiting k).head? = some v) : q.step (.take i k) =
      some ⟨q.waiting.dequeue k, q.held.set i (some (k, v)), q.log.take k v⟩ := by
  simp [step, hi, h]

section Held

variable {i : ℕ} {k : K} {v : V} (hi : q.held[i]? = some (some (k, v)))

include hi

theorem step_finish :
    q.step (.finish i) = some ⟨q.waiting, q.held.set i none, q.log.finish k v⟩ := by
  simp [step, hi]

theorem step_giveBack (n : ℕ) : q.step (.giveBack i n) =
    some ⟨q.waiting.insert k v n, q.held.set i none, q.log.giveBack k v⟩ := by
  simp [step, hi]

theorem step_lose : q.step (.lose i) = some ⟨q.waiting, q.held.set i none, q.log.lose k v⟩ := by
  simp [step, hi]

end Held

variable [DecidableEq V]

/-- A value waits, is held, is finished or is lost, together as many times as it was published. -/
def Conserved (q : WorkQueue K V) : Prop := ∀ k v, (q.log.published k).count v =
  (q.waiting k).count v + q.held.count (some (k, v)) + (q.log.finished k).count v +
    (q.log.lost k).count v

theorem count_held_set {l : List (Option (K × V))} {i : ℕ} {o : Option (K × V)}
    (h : l[i]? = some o) (o' : Option (K × V)) (k : K) (v : V) :
    (l.set i o').count (some (k, v)) + (if o = some (k, v) then 1 else 0) =
      l.count (some (k, v)) + if o' = some (k, v) then 1 else 0 := by
  obtain ⟨hi, rfl⟩ := List.getElem?_eq_some_iff.1 h
  rw [List.count_set hi]
  simp only [beq_iff_eq]
  by_cases hl : l[i] = some (k, v)
  · have hpos : 0 < l.count (some (k, v)) := List.count_pos_iff.2 (hl ▸ List.getElem_mem hi)
    rw [if_pos hl]
    omega
  · rw [if_neg hl]
    omega

theorem Conserved.step (hq : Conserved q) (h : q.step a = some q') : Conserved q' := by
  intro k' v'
  have hold := hq k' v'
  rcases step_cases h with ⟨k, v, -, rfl⟩ | ⟨-, rfl⟩ | ⟨k, v, rest, -, hwaiting, rfl⟩ |
    ⟨k, v, rest, -, hwaiting, rfl⟩ | ⟨i, k, v, rest, -, hheld, hwaiting, rfl⟩ |
    ⟨i, k, v, hheld, ⟨-, rfl⟩ | ⟨n, -, rfl⟩ | ⟨-, rfl⟩⟩
  · simp only [WorkLog.publish, FifoQueues.count_enqueue]
    omega
  · simpa using hold
  · have hdeq := FifoQueues.count_dequeue q.waiting k k' v v' hwaiting
    simp only [WorkLog.take, WorkLog.finish, FifoQueues.count_enqueue]
    omega
  · have hdeq := FifoQueues.count_dequeue q.waiting k k' v v' hwaiting
    simp only [WorkLog.take, WorkLog.lose, FifoQueues.count_enqueue]
    omega
  · have hset := count_held_set hheld (some (k, v)) k' v'
    have hdeq := FifoQueues.count_dequeue q.waiting k k' v v' hwaiting
    simp only [reduceCtorEq, if_false, Option.some.injEq, Prod.mk.injEq] at hset
    simp only [WorkLog.take]
    omega
  · have hset := count_held_set hheld none k' v'
    simp only [reduceCtorEq, if_false, Option.some.injEq, Prod.mk.injEq] at hset
    simp only [WorkLog.finish, FifoQueues.count_enqueue]
    omega
  · have hset := count_held_set hheld none k' v'
    simp only [reduceCtorEq, if_false, Option.some.injEq, Prod.mk.injEq] at hset
    simp only [WorkLog.giveBack, FifoQueues.count_insert]
    omega
  · have hset := count_held_set hheld none k' v'
    simp only [reduceCtorEq, if_false, Option.some.injEq, Prod.mk.injEq] at hset
    simp only [WorkLog.lose, FifoQueues.count_enqueue]
    omega

/-- What was published once is in one place. -/
theorem Conserved.once (hq : Conserved q) {k : K} (hnodup : (q.log.published k).Nodup) :
    (q.log.finished k).Nodup ∧ ∀ v ∈ q.log.finished k,
      v ∉ q.waiting k ∧ some (k, v) ∉ q.held ∧ v ∉ q.log.lost k := by
  have hle (v : V) : (q.waiting k).count v + q.held.count (some (k, v)) +
      (q.log.finished k).count v + (q.log.lost k).count v ≤ 1 := by
    rw [← hq k v]
    exact List.nodup_iff_count_le_one.1 hnodup v
  refine ⟨List.nodup_iff_count_le_one.2 (fun v => by have := hle v; omega), fun v hv => ?_⟩
  have hpos := List.count_pos_iff.2 hv
  have hv1 := hle v
  refine ⟨?_, ?_, ?_⟩ <;> rw [← List.count_eq_zero] <;> omega

theorem conserved_empty : Conserved (empty : WorkQueue K V) := fun _ _ => rfl

theorem conserved_exec {as : List (Label K V)} (h : system.exec system.init as = some q) :
    Conserved q :=
  system.exec_invariant (fun _ _ _ hq hs => hq.step hs) conserved_empty h

omit [DecidableEq V] in
theorem lost_step_iff (h : q.step a = some q') :
    (∀ k, q'.log.lost k = []) ↔ (∀ k, q.log.lost k = []) ∧ ¬ a.Loses := by
  have hloses (log : WorkLog K V) (k : K) (v : V) : ¬ ∀ k', (log.lose k v).lost k' = [] := by
    intro hnil
    have hk := hnil k
    simp [WorkLog.lose] at hk
  rcases step_cases h with ⟨k, v, rfl, rfl⟩ | ⟨rfl, rfl⟩ | ⟨k, v, rest, rfl, -, rfl⟩ |
    ⟨k, v, rest, rfl, -, rfl⟩ | ⟨i, k, v, rest, rfl, -, -, rfl⟩ |
    ⟨i, k, v, -, ⟨rfl, rfl⟩ | ⟨n, rfl, rfl⟩ | ⟨rfl, rfl⟩⟩
  · simp [WorkLog.publish, Label.Loses]
  · simp [Label.Loses]
  · simp [WorkLog.take, WorkLog.finish, Label.Loses]
  · exact iff_of_false (hloses _ k v) (fun h => h.2 trivial)
  · simp [WorkLog.take, Label.Loses]
  · simp [WorkLog.finish, Label.Loses]
  · simp [WorkLog.giveBack, Label.Loses]
  · exact iff_of_false (hloses _ k v) (fun h => h.2 trivial)

omit [DecidableEq V] in
/-- Nothing is lost but in a step that loses it. -/
theorem lost_eq_nil_iff {as : List (Label K V)} (h : system.exec system.init as = some q) :
    (∀ k, q.log.lost k = []) ↔ ∀ a ∈ as, ¬ a.Loses := by
  rw [TransitionSystem.final_iff_along (C := fun _ a => ¬ Label.Loses a) (I := fun _ => True)
    (fun _ _ _ _ _ => trivial) (fun _ _ _ _ hs => lost_step_iff hs) trivial h,
    TransitionSystem.along_iff_forall_mem h]
  exact and_iff_right (fun _ => rfl)

/-- What entered a queue was taken from it or waits in it, in the order in which it entered. -/
def InOrder (q : WorkQueue K V) : Prop := ∀ k, q.log.taken k ++ q.waiting k = q.log.entered k

/-- What is given back goes behind everything that waits. -/
def AtEnd (q : WorkQueue K V) (a : Label K V) : Prop :=
  ∀ i n, a = .giveBack i n → ∀ k v, q.held[i]? = some (some (k, v)) → n = (q.waiting k).length

omit [DecidableEq V] in
theorem InOrder.step (hq : InOrder q) (ha : AtEnd q a) (h : q.step a = some q') : InOrder q' := by
  intro k'
  have hold := hq k'
  have henqueue (k : K) (v : V) : q.log.taken k' ++ q.waiting.enqueue k v k' =
      q.log.entered.enqueue k v k' := by
    by_cases hk : k' = k
    · subst hk
      simp [← hold]
    · rw [FifoQueues.enqueue_of_ne _ _ hk, FifoQueues.enqueue_of_ne _ _ hk, hold]
  have htake {k : K} {v : V} {rest : List V} (hwaiting : q.waiting k = v :: rest) :
      q.log.taken.enqueue k v k' ++ q.waiting.dequeue k k' = q.log.entered k' := by
    by_cases hk : k' = k
    · subst hk
      simp [← hold, hwaiting]
    · rw [FifoQueues.enqueue_of_ne _ _ hk, FifoQueues.dequeue_of_ne _ _ hk, hold]
  rcases step_cases h with ⟨k, v, -, rfl⟩ | ⟨-, rfl⟩ | ⟨k, v, rest, -, hwaiting, rfl⟩ |
    ⟨k, v, rest, -, hwaiting, rfl⟩ | ⟨i, k, v, rest, -, -, hwaiting, rfl⟩ |
    ⟨i, k, v, hheld, ⟨-, rfl⟩ | ⟨n, rfl, rfl⟩ | ⟨-, rfl⟩⟩
  · exact henqueue k v
  · exact hold
  · exact htake hwaiting
  · exact htake hwaiting
  · exact htake hwaiting
  · exact hold
  · rw [ha i n rfl k v hheld, FifoQueues.insert_length]
    exact henqueue k v
  · exact hold

omit [DecidableEq V] in
theorem inOrder_exec {as : List (Label K V)} (hend : system.Along AtEnd system.init as)
    (h : system.exec system.init as = some q) : InOrder q :=
  system.exec_invariant_along (fun _ _ _ hq ha hs => hq.step ha hs) (fun _ => rfl) h hend

omit [DecidableEq V] in
theorem entered_step (hle : ∀ k, (q.log.published k).length ≤ (q.log.entered k).length)
    (h : q.step a = some q') :
    (∀ k, (q'.log.published k).length ≤ (q'.log.entered k).length) ∧
      (q'.log.entered = q'.log.published ↔
        q.log.entered = q.log.published ∧ ∀ i n, a ≠ .giveBack i n) := by
  rcases step_cases h with ⟨k, v, rfl, rfl⟩ | ⟨rfl, rfl⟩ | ⟨k, v, rest, rfl, -, rfl⟩ |
    ⟨k, v, rest, rfl, -, rfl⟩ | ⟨i, k, v, rest, rfl, -, -, rfl⟩ |
    ⟨i, k, v, -, ⟨rfl, rfl⟩ | ⟨n, rfl, rfl⟩ | ⟨rfl, rfl⟩⟩
  · refine ⟨fun k' => ?_, ?_⟩
    · by_cases hk : k' = k
      · subst hk
        simpa [WorkLog.publish] using hle k'
      · simpa [WorkLog.publish, FifoQueues.enqueue_of_ne _ _ hk] using hle k'
    · simp only [WorkLog.publish, ne_eq, reduceCtorEq, not_false_eq_true, implies_true, and_true]
      exact FifoQueues.enqueue_inj
  · exact ⟨hle, by simp⟩
  · exact ⟨hle, by simp [WorkLog.take, WorkLog.finish]⟩
  · exact ⟨hle, by simp [WorkLog.take, WorkLog.lose]⟩
  · exact ⟨hle, by simp [WorkLog.take]⟩
  · exact ⟨hle, by simp [WorkLog.finish]⟩
  · have hlonger : (q.log.published k).length < ((q.log.giveBack k v).entered k).length := by
      simpa [WorkLog.giveBack] using Nat.lt_succ_of_le (hle k)
    refine ⟨fun k' => ?_, iff_of_false (fun heq => ?_) (fun h => h.2 i n rfl)⟩
    · by_cases hk : k' = k
      · subst hk
        exact Nat.le_of_lt hlonger
      · simpa [WorkLog.giveBack, FifoQueues.enqueue_of_ne _ _ hk] using hle k'
    · have hlength := congrArg List.length (congrFun heq k)
      exact absurd hlength.symm (Nat.ne_of_lt hlonger)
  · exact ⟨hle, by simp [WorkLog.lose]⟩

omit [DecidableEq V] in
/-- What entered is what was published, unless something was given back. -/
theorem entered_eq_published_iff {as : List (Label K V)}
    (h : system.exec system.init as = some q) :
    q.log.entered = q.log.published ↔ ∀ a ∈ as, ∀ i n, a ≠ .giveBack i n := by
  rw [TransitionSystem.final_iff_along (C := fun _ a => ∀ i n, a ≠ .giveBack i n)
    (I := fun q => ∀ k, (q.log.published k).length ≤ (q.log.entered k).length)
    (fun _ _ _ hq hs => (entered_step hq hs).1) (fun _ _ _ hq hs => (entered_step hq hs).2)
    (fun _ => Nat.le_refl _) h, TransitionSystem.along_iff_forall_mem h]
  exact and_iff_right rfl

end WorkQueue
end Rszero
