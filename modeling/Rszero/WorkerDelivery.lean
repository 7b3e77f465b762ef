import Rszero.Worker
import Mathlib.Data.List.Basic

/-!
# The worker and its dead-letter channel

When `run` has returned, every message that it received has ended in one success or one delivery to
the dead-letter channel, exactly when no attempt has panicked and the channel was never full when a
message was offered to it.
-/

namespace Rszero.Worker

variable {M : Type*} {capacity : ℕ} {config : JobConfig}

inductive Move (s : State M capacity) : Label M → State M capacity → Prop
  | recv (m : M) (hl : s.loop = .receiving) : Move s (.recv m) { s with loop := .acquiring m }
  | close (hl : s.loop = .receiving) : Move s .close { s with loop := .joining }
  | acquire {m : M} (hl : s.loop = .acquiring m) : Move s .acquire (s.spawn m)
  | ok {i : ℕ} {t : Task M} (ht : s.tasks[i]? = some t) (hs : t.stage ≠ .finished) :
      Move s (.ok i) (s.finish i t)
  | panic {i : ℕ} {t : Task M} (ht : s.tasks[i]? = some t) (hs : t.stage ≠ .finished) :
      Move s (.panic i) (s.finish i t)
  | advance {i : ℕ} {t : Task M} {stage : Stage} {a : Label M} (ht : s.tasks[i]? = some t)
      (hs : t.stage ≠ .finished) (hstage : stage ≠ .finished)
      (ha : a = .error i ∨ a = .wake i ∨ a = .timeout i) : Move s a (s.setStage i t stage)
  | send {i : ℕ} {t : Task M} (ht : s.tasks[i]? = some t) (hs : t.stage ≠ .finished) :
      Move s (.send i) { s.finish i t with dlq := (s.dlq.trySend t.message).getD s.dlq }
  | read {m : M} {dlq : BoundedChannel M capacity} (hr : s.dlq.recv = some (m, dlq)) :
      Move s .read { s with dlq := dlq }
  | join (hl : s.loop = .joining) (hall : ∀ t ∈ s.tasks, t.stage = .finished) :
      Move s .join { s with loop := .returned }

theorem retry_ne_finished (k : ℕ) : State.retry config k ≠ .finished := by
  unfold State.retry
  split_ifs <;> simp

theorem next_move {s s' : State M capacity} {a : Label M}
    (h : (system M capacity config).step s a = some s') : Move s a s' := by
  change next config s a = some s' at h
  cases a with
  | recv m =>
      simp only [next] at h
      split at h <;> cases h
      exact .recv m ‹_›
  | close =>
      simp only [next] at h
      split at h <;> cases h
      exact .close ‹_›
  | acquire =>
      simp only [next] at h
      split at h
      · split_ifs at h
        cases h
        exact .acquire ‹_›
      · cases h
  | ok i =>
      obtain ⟨t, ht, hs⟩ := Option.bind_eq_some_iff.1 h
      split at hs <;> cases hs
      exact .ok ht (by simp [*])
  | error i =>
      obtain ⟨t, ht, hs⟩ := Option.bind_eq_some_iff.1 h
      split at hs <;> cases hs
      exact .advance ht (by simp [*]) (retry_ne_finished _) (.inl rfl)
  | panic i =>
      obtain ⟨t, ht, hs⟩ := Option.bind_eq_some_iff.1 h
      split at hs <;> cases hs
      exact .panic ht (by simp [*])
  | wake i =>
      obtain ⟨t, ht, hs⟩ := Option.bind_eq_some_iff.1 h
      split at hs <;> cases hs
      exact .advance ht (by simp [*]) (by simp) (.inr (.inl rfl))
  | timeout i =>
      obtain ⟨t, ht, hs⟩ := Option.bind_eq_some_iff.1 h
      split at hs <;> cases hs
      · exact .advance ht (by simp [*]) (by simp) (.inr (.inr rfl))
      · exact .advance ht (by simp [*]) (by simp) (.inr (.inr rfl))
  | send i =>
      obtain ⟨t, ht, hs⟩ := Option.bind_eq_some_iff.1 h
      split at hs <;> cases hs
      exact .send ht (by simp [*])
  | read =>
      obtain ⟨⟨m, dlq⟩, hr, hs⟩ := Option.map_eq_some_iff.1 h
      exact hs ▸ .read hr
  | join =>
      simp only [next] at h
      split at h
      · split_ifs at h with hall
        cases h
        exact .join ‹_› (by simpa using hall)
      · cases h

section Tasks

variable {tasks : List (Task M)} {ends ends' : ℕ → ℕ} {i : ℕ} {t : Task M} {stage : Stage}

structure Counted (tasks : List (Task M)) (ends : ℕ → ℕ) : Prop where
  fresh : ∀ i, (∀ t, tasks[i]? = some t → t.stage ≠ .finished) → ends i = 0
  atMost : ∀ i, ends i ≤ 1

def Settled (tasks : List (Task M)) (ends : ℕ → ℕ) : Prop :=
  ∀ i t, tasks[i]? = some t → t.stage = .finished → ends i = 1

theorem getElem?_set_stage (ht : tasks[i]? = some t) (j : ℕ) :
    (tasks.set i { t with stage := stage })[j]? =
      if i = j then some { t with stage := stage } else tasks[j]? := by
  obtain ⟨hi, -⟩ := List.getElem?_eq_some_iff.1 ht
  rw [List.getElem?_set]
  simp [hi]

theorem map_message_set (ht : tasks[i]? = some t) :
    (tasks.set i { t with stage := stage }).map Task.message = tasks.map Task.message := by
  apply List.ext_getElem?
  intro j
  rw [List.getElem?_map, List.getElem?_map, getElem?_set_stage ht]
  split_ifs with hj
  · subst hj
    simp [ht]
  · rfl

theorem Counted.set (h : Counted tasks ends) (ht : tasks[i]? = some t)
    (hother : ∀ j, j ≠ i → ends' j = ends j) (hi : ends' i ≤ 1)
    (hstage : stage ≠ .finished → ends' i = 0) :
    Counted (tasks.set i { t with stage := stage }) ends' where
  fresh := by
    intro j hj
    by_cases hij : i = j
    · subst hij
      exact hstage (hj { t with stage := stage } (by rw [getElem?_set_stage ht, if_pos rfl]))
    · rw [hother j (Ne.symm hij)]
      apply h.fresh
      intro t' ht'
      exact hj t' (by rw [getElem?_set_stage ht, if_neg hij, ht'])
  atMost := by
    intro j
    by_cases hij : j = i
    · exact hij ▸ hi
    · exact hother j hij ▸ h.atMost j

theorem settled_set_iff (ht : tasks[i]? = some t) (hs : t.stage ≠ .finished)
    (hother : ∀ j, j ≠ i → ends' j = ends j) :
    Settled (tasks.set i { t with stage := stage }) ends' ↔
      Settled tasks ends ∧ (stage = .finished → ends' i = 1) := by
  constructor
  · intro h
    constructor
    · intro j t' ht' hs'
      have hij : i ≠ j := by
        rintro rfl
        exact hs (Option.some.inj (ht.symm.trans ht') ▸ hs')
      rw [← hother j (Ne.symm hij)]
      exact h j t' (by rw [getElem?_set_stage ht, if_neg hij, ht']) hs'
    · intro hstage
      exact h i { t with stage := stage } (by rw [getElem?_set_stage ht, if_pos rfl]) hstage
  · rintro ⟨h, hi⟩ j t' ht' hs'
    rw [getElem?_set_stage ht] at ht'
    split_ifs at ht' with hij
    · obtain rfl := Option.some.inj ht'
      exact hij ▸ hi hs'
    · rw [hother j (Ne.symm hij)]
      exact h j t' ht' hs'

/-- A new task is not finished. -/
theorem Counted.spawn (h : Counted tasks ends) (m : M) (k : ℕ) :
    Counted (tasks ++ [⟨m, .attempt k⟩]) ends where
  fresh := by
    intro j hj
    apply h.fresh
    intro t' ht'
    obtain ⟨hlt, -⟩ := List.getElem?_eq_some_iff.1 ht'
    exact hj t' (by rw [List.getElem?_append_left hlt, ht'])
  atMost := h.atMost

theorem settled_spawn_iff {m : M} {k : ℕ} :
    Settled (tasks ++ [⟨m, .attempt k⟩]) ends ↔ Settled tasks ends := by
  constructor
  · intro h j t' ht' hs'
    obtain ⟨hlt, -⟩ := List.getElem?_eq_some_iff.1 ht'
    exact h j t' (by rw [List.getElem?_append_left hlt, ht']) hs'
  · intro h j t' ht' hs'
    rw [List.getElem?_append] at ht'
    split_ifs at ht' with hlt
    · exact h j t' ht' hs'
    · obtain rfl := List.mem_singleton.1 (List.mem_of_getElem? ht')
      cases hs'

end Tasks

def Loop.pending : Loop M → List M
  | .acquiring m => [m]
  | _ => []

structure Sound (s : State M capacity) (m : Account M) : Prop where
  received : m.received = s.tasks.map Task.message ++ s.loop.pending
  counted : Counted s.tasks m.ends
  delivered : m.dead.filterMap (fun i => m.received[i]?) = m.read ++ s.dlq.queue
  returned : s.loop = .returned → ∀ t ∈ s.tasks, t.stage = .finished

variable {s s' : State M capacity} {m : Account M} {a : Label M} {i : ℕ} {t : Task M}

theorem ends_succeed (m : Account M) (i j : ℕ) :
    Account.ends { m with succeeded := m.succeeded ++ [i] } j =
      m.ends j + if j = i then 1 else 0 := by
  simp only [Account.ends, List.count_append, List.count_singleton, beq_iff_eq, eq_comm (a := i)]
  omega

theorem ends_deadLetter (m : Account M) (i j : ℕ) :
    Account.ends { m with dead := m.dead ++ [i] } j = m.ends j + if j = i then 1 else 0 := by
  simp only [Account.ends, List.count_append, List.count_singleton, beq_iff_eq, eq_comm (a := i)]
  omega

theorem Counted.ends_eq_zero {tasks : List (Task M)} {ends : ℕ → ℕ} (h : Counted tasks ends)
    (ht : tasks[i]? = some t) (hs : t.stage ≠ .finished) : ends i = 0 :=
  h.fresh i (fun _ ht' => Option.some.inj (ht.symm.trans ht') ▸ hs)

theorem Sound.received_eq_some (h : Sound s m) (ht : s.tasks[i]? = some t) :
    m.received[i]? = some t.message := by
  obtain ⟨hi, -⟩ := List.getElem?_eq_some_iff.1 ht
  rw [h.received, List.getElem?_append_left (by simpa using hi), List.getElem?_map, ht]
  rfl

theorem Sound.not_returned (h : Sound s m) (ht : s.tasks[i]? = some t)
    (hs : t.stage ≠ .finished) : s.loop ≠ .returned :=
  fun hl => hs (h.returned hl t (List.mem_of_getElem? ht))

/-- What is received later does not change what the dead letters are. -/
theorem Sound.delivered_append (h : Sound s m) (msg : M) :
    m.dead.filterMap (fun i => (m.received ++ [msg])[i]?) = m.read ++ s.dlq.queue := by
  rw [← h.delivered]
  apply List.filterMap_congr
  intro i hi
  have hends : m.ends i ≠ 0 := by
    have hcount := List.count_pos_iff.2 hi
    unfold Account.ends
    omega
  have hlt : i < m.received.length := by
    by_contra hle
    refine hends (h.counted.fresh i ?_)
    intro t ht
    have hsome := h.received_eq_some ht
    rw [List.getElem?_eq_none (Nat.not_lt.1 hle)] at hsome
    cases hsome
  rw [List.getElem?_append_left hlt]

/-- Between its start and its end a task does nothing that counts. -/
theorem note_advance (ha : a = .error i ∨ a = .wake i ∨ a = .timeout i) :
    note m s a s' = m := by
  rcases ha with rfl | rfl | rfl <;> rfl

theorem gentle_advance (ha : a = .error i ∨ a = .wake i ∨ a = .timeout i) :
    Gentle (s, m) a := by
  rcases ha with rfl | rfl | rfl <;> trivial

/-- A finished task gives its permit back, and its message has ended once more or not at all. -/
theorem Sound.finish (h : Sound s m) (ht : s.tasks[i]? = some t) (hs : t.stage ≠ .finished)
    {m' : Account M} {dlq : BoundedChannel M capacity} (hreceived : m'.received = m.received)
    (hother : ∀ j, j ≠ i → m'.ends j = m.ends j) (hi : m'.ends i ≤ 1)
    (hdelivered : m'.dead.filterMap (fun i => m.received[i]?) = m'.read ++ dlq.queue) :
    Sound { s.finish i t with dlq := dlq } m' where
  received := by
    rw [hreceived, h.received]
    simp [State.finish, State.setStage, map_message_set ht]
  counted := h.counted.set ht hother hi (fun hne => absurd rfl hne)
  delivered := by rw [hreceived, hdelivered]
  returned := fun hl => absurd hl (h.not_returned ht hs)

theorem sound_step (h : Sound s m) (hstep : (system M capacity config).step s a = some s') :
    Sound s' (note m s a s') := by
  cases next_move hstep with
  | recv msg hl =>
      exact {
        received := by simp [note, h.received, hl, Loop.pending]
        counted := h.counted
        delivered := h.delivered_append msg
        returned := fun hl' => by cases hl' }
  | close hl =>
      exact {
        received := by simp [note, h.received, hl, Loop.pending]
        counted := h.counted
        delivered := h.delivered
        returned := fun hl' => by cases hl' }
  | acquire hl =>
      exact {
        received := by simp [note, h.received, hl, Loop.pending, State.spawn]
        counted := h.counted.spawn _ 0
        delivered := h.delivered
        returned := fun hl' => by cases hl' }
  | ok ht hs =>
      have hzero := h.counted.ends_eq_zero ht hs
      refine h.finish ht hs rfl (fun j hj => ?_) ?_ h.delivered
      · simp [note, ends_succeed, hj]
      · simp [note, ends_succeed, hzero]
  | panic ht hs => exact h.finish ht hs rfl (fun _ _ => rfl) (h.counted.atMost _) h.delivered
  | advance ht hs hstage ha =>
      rw [note_advance ha]
      exact {
        received := by
          rw [h.received]
          simp [State.setStage, map_message_set ht]
        counted := h.counted.set ht (fun _ _ => rfl) (h.counted.atMost _)
          (fun _ => h.counted.ends_eq_zero ht hs)
        delivered := h.delivered
        returned := fun hl => absurd hl (h.not_returned ht hs) }
  | send ht hs =>
      have hzero := h.counted.ends_eq_zero ht hs
      by_cases hroom : s.dlq.queue.length < capacity
      · obtain ⟨dlq, hsend⟩ :=
          Option.isSome_iff_exists.1 (BoundedChannel.trySend_isSome_iff.2 hroom)
        simp only [note, if_pos hroom]
        refine h.finish ht hs rfl (fun j hj => ?_) ?_ ?_
        · simp [ends_deadLetter, hj]
        · simp [ends_deadLetter, hzero]
        · rw [List.filterMap_append, h.delivered, hsend, Option.getD_some,
            BoundedChannel.trySend_eq_some hsend]
          simp [h.received_eq_some ht]
      · simp only [note, if_neg hroom, BoundedChannel.trySend_eq_none hroom, Option.getD_none]
        exact h.finish ht hs rfl (fun _ _ => rfl) (h.counted.atMost _) h.delivered
  | read hr =>
      have hqueue := BoundedChannel.recv_eq_some hr
      exact {
        received := h.received
        counted := h.counted
        delivered := by simpa [note, hqueue] using h.delivered
        returned := h.returned }
  | join hl hall =>
      exact {
        received := by simp [note, h.received, hl, Loop.pending]
        counted := h.counted
        delivered := h.delivered
        returned := fun _ => hall }

/-- A step settles what it finishes, unless the handler panics or the channel is full. -/
theorem settled_step_iff (h : Sound s m) (hstep : (system M capacity config).step s a = some s') :
    Settled s'.tasks (note m s a s').ends ↔ Settled s.tasks m.ends ∧ Gentle (s, m) a := by
  cases next_move hstep with
  | recv msg hl => exact (and_iff_left trivial).symm
  | close hl => exact (and_iff_left trivial).symm
  | acquire hl => exact settled_spawn_iff.trans (and_iff_left trivial).symm
  | ok ht hs =>
      have hzero := h.counted.ends_eq_zero ht hs
      refine (settled_set_iff ht hs (fun j hj => ?_)).trans (and_congr_right (fun _ => ?_))
      · simp [note, ends_succeed, hj]
      · simp [note, ends_succeed, hzero, Gentle]
  | panic ht hs =>
      have hzero := h.counted.ends_eq_zero ht hs
      refine (settled_set_iff ht hs (fun j hj => rfl)).trans (and_congr_right (fun _ => ?_))
      simp [note, hzero, Gentle]
  | advance ht hs hstage ha =>
      rw [note_advance ha, and_iff_left (gentle_advance ha)]
      refine (settled_set_iff ht hs (fun j hj => rfl)).trans (and_iff_left ?_)
      exact fun hfinished => absurd hfinished hstage
  | send ht hs =>
      have hzero := h.counted.ends_eq_zero ht hs
      by_cases hroom : s.dlq.queue.length < capacity
      · simp only [note, if_pos hroom]
        refine (settled_set_iff ht hs (fun j hj => ?_)).trans (and_congr_right (fun _ => ?_))
        · simp [ends_deadLetter, hj]
        · simp [ends_deadLetter, hzero, Gentle, hroom]
      · simp only [note, if_neg hroom]
        refine (settled_set_iff ht hs (fun j hj => rfl)).trans (and_congr_right (fun _ => ?_))
        simp [hzero, Gentle, hroom]
  | read hr => exact (and_iff_left trivial).symm
  | join hl hall => exact (and_iff_left trivial).symm

theorem sound_init : Sound (system M capacity config).init ⟨[], [], [], []⟩ where
  received := rfl
  counted := ⟨fun _ _ => rfl, fun _ => Nat.zero_le _⟩
  delivered := rfl
  returned := nofun

theorem sound_observed {x y : State M capacity × Account M} (h : Sound x.1 x.2)
    (hstep : (observed M capacity config).step x a = some y) : Sound y.1 y.2 := by
  obtain ⟨s', hs, rfl⟩ := TransitionSystem.exists_of_observe_step hstep
  exact sound_step h hs

theorem settled_observed_iff {x y : State M capacity × Account M} (h : Sound x.1 x.2)
    (hstep : (observed M capacity config).step x a = some y) :
    Settled y.1.tasks y.2.ends ↔ Settled x.1.tasks x.2.ends ∧ Gentle x a := by
  obtain ⟨s', hs, rfl⟩ := TransitionSystem.exists_of_observe_step hstep
  exact settled_step_iff h hs

/-- When `run` has returned, there is nothing but finished tasks. -/
theorem conserved_iff_settled {x : State M capacity × Account M} (h : Sound x.1 x.2)
    (hl : x.1.loop = .returned) : Conserved x ↔ Settled x.1.tasks x.2.ends := by
  have hlength : x.2.received.length = x.1.tasks.length := by
    simp [h.received, hl, Loop.pending]
  constructor
  · intro hx i t ht hs
    obtain ⟨hi, -⟩ := List.getElem?_eq_some_iff.1 ht
    exact hx.once i (hlength ▸ hi)
  · intro hx
    refine ⟨fun i hi => ?_, h.delivered⟩
    have ht := List.getElem?_eq_getElem (hlength ▸ hi)
    exact hx i _ ht (h.returned hl _ (List.mem_of_getElem? ht))

/-- In a run to its end each message ends in exactly one way if and only if no attempt panics and
no message is offered to a full channel. -/
theorem conserved_iff_gentle {as : List (Label M)} {x : State M capacity × Account M}
    (he : (observed M capacity config).exec (observed M capacity config).init as = some x)
    (hl : x.1.loop = .returned) :
    Conserved x ↔
      (observed M capacity config).Along Gentle (observed M capacity config).init as := by
  have hsound : Sound (observed M capacity config).init.1 (observed M capacity config).init.2 :=
    sound_init
  have hx := (observed M capacity config).exec_invariant (I := fun x => Sound x.1 x.2)
    (fun _ _ _ => sound_observed) hsound he
  rw [conserved_iff_settled hx hl]
  have hfinal := TransitionSystem.final_iff_along (C := Gentle)
    (I := fun x => Sound x.1 x.2) (P := fun x => Settled x.1.tasks x.2.ends)
    (fun _ _ _ => sound_observed) (fun _ _ _ => settled_observed_iff) hsound he
  rw [hfinal]
  exact and_iff_right nofun

def single : JobConfig := (JobConfig.default.withConcurrency 1).withMaxRetries 0

/-- Two handlers fail, and nobody reads from a channel for one message. -/
def overflow : List (Label String) :=
  [.recv "a", .acquire, .error 0, .send 0, .recv "b", .acquire, .error 1, .send 1, .close, .join]

def panicked : List (Label String) := [.recv "a", .acquire, .panic 0, .close, .join]

/-- The first message succeeds, and the second one is read from the channel of the dead. -/
def delivered : List (Label String) :=
  [.recv "a", .acquire, .ok 0, .recv "b", .acquire, .error 1, .send 1, .read, .close, .join]

theorem conserved_iff_gentle_delivered : ∃ x,
    (observed String 1 single).exec (observed String 1 single).init delivered = some x ∧
      x.1.loop = .returned ∧ x.2.succeeded = [0] ∧ x.2.read = ["b"] ∧ Conserved x := by
  have hgentle : (observed String 1 single).Along Gentle (observed String 1 single).init
      delivered := by
    iterate 6 apply TransitionSystem.along_cons trivial rfl
    refine TransitionSystem.along_cons ?_ rfl ?_
    · exact Nat.lt_succ_self 0
    iterate 3 apply TransitionSystem.along_cons trivial rfl
    trivial
  refine ⟨_, rfl, rfl, rfl, rfl, (conserved_iff_gentle ?_ ?_).2 hgentle⟩ <;> rfl

/-- The second message of the one run and the only one of the other have ended in no way. -/
theorem overflow_panicked_not_conserved :
    (∃ x, (observed String 1 single).exec (observed String 1 single).init overflow = some x ∧
      x.1.loop = .returned ∧ x.2.received[1]? = some "b" ∧ x.2.ends 1 = 0 ∧ ¬ Conserved x) ∧
    ∃ x, (observed String 1 single).exec (observed String 1 single).init panicked = some x ∧
      x.1.loop = .returned ∧ x.2.received[0]? = some "a" ∧ x.2.ends 0 = 0 ∧ ¬ Conserved x := by
  constructor
  · refine ⟨_, rfl, rfl, rfl, rfl, fun h => ?_⟩
    cases h.once 1 (Nat.lt_of_sub_eq_succ rfl)
  · refine ⟨_, rfl, rfl, rfl, rfl, fun h => ?_⟩
    cases h.once 0 (Nat.lt_of_sub_eq_succ rfl)

end Rszero.Worker
