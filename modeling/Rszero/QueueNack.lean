import Rszero.MemoryQueue
import Rszero.TransitionSystem

/-!
# Rejecting messages

A message that was pushed waits in its topic, or has been pulled and is outstanding, or is finished.
`nack` does nothing in the `memory` and the `redis` backend, so a message that is rejected for
another delivery is in none of these places.
-/

namespace Rszero.Queue.Nack

open Outbox (Message Uuid)

inductive Label
  | push (topic : String) (payload : Option String) (uuid : Uuid)
  | pull (topic : String)
  | ack (id : String)
  | nack (id : String) (requeue : Bool)

structure Ledger where
  pushed : List Message
  outstanding : List Message
  finished : List Message

namespace Ledger

def pull (ledger : Ledger) (m : Option Message) : Ledger :=
  { ledger with outstanding := ledger.outstanding ++ m.toList }

def drop (ledger : Ledger) (id : String) : Ledger :=
  { ledger with outstanding := ledger.outstanding.eraseP (fun m => m.id = id) }

def finish (ledger : Ledger) (id : String) : Ledger :=
  { ledger.drop id with
    finished := ledger.finished ++ (ledger.outstanding.find? (fun m => m.id = id)).toList }

def Outstanding (ledger : Ledger) (id : String) : Prop := ∃ m ∈ ledger.outstanding, m.id = id

end Ledger

variable {S : Type} (backend : FifoBackend S)

def Label.apply (s : S) : Label → S
  | .push topic payload uuid => (newMessage topic payload uuid).elim s (backend.publish s)
  | .pull topic => (backend.consume s topic).2
  | .ack id => backend.ack s id
  | .nack id requeue => backend.nack s id requeue

def note (ledger : Ledger) (s : S) (a : Label) (_ : S) : Ledger :=
  match a with
  | .push topic payload uuid =>
      { ledger with pushed := ledger.pushed ++ (newMessage topic payload uuid).toList }
  | .pull topic =>
      match (backend.consume s topic).1 with
      | .ok m => ledger.pull m
      | .error _ => ledger
  | .ack id | .nack id false => ledger.finish id
  | .nack id true => ledger.drop id

def system : TransitionSystem S Label where
  init := backend.init
  step s a := some (a.apply backend s)

def observed : TransitionSystem (S × Ledger) Label :=
  (system backend).observe ⟨[], [], []⟩ (note backend)

/-- A message is in one place for each time it was pushed, and waits nowhere but in its topic;
rejecting what is not outstanding changes nothing. -/
structure Conserved (x : S × Ledger) : Prop where
  placed : ∀ m, x.2.pushed.count m = (backend.waiting x.1 m.topic).count m +
    x.2.outstanding.count m + x.2.finished.count m
  home : ∀ topic, ∀ m ∈ backend.waiting x.1 topic, m.topic = topic
  idle : ∀ id, ¬ x.2.Outstanding id →
    backend.ack x.1 id = x.1 ∧ ∀ requeue, backend.nack x.1 id requeue = x.1

/-- The step does not reject an outstanding message for another delivery. -/
def Kept (x : S × Ledger) (a : Label) : Prop := ∀ id, a = .nack id true → ¬ x.2.Outstanding id

/-- A backend that only publishes and consumes. -/
structure Oblivious : Prop where
  ack : ∀ s id, backend.ack s id = s
  nack : ∀ s id requeue, backend.nack s id requeue = s

theorem count_eraseP_add_find? (l : List Message) (p : Message → Bool) (m : Message) :
    (l.eraseP p).count m + (l.find? p).toList.count m = l.count m := by
  induction l with
  | nil => rfl
  | cons a l ih =>
      by_cases ha : p a
      · simp only [List.eraseP_cons_of_pos ha, List.find?_cons_of_pos ha, Option.toList_some,
          List.count_cons, List.count_nil]
        omega
      · simp only [List.eraseP_cons_of_neg ha, List.find?_cons_of_neg ha, List.count_cons]
        omega

theorem count_enqueue (q : FifoQueues String Message) (m m' : Message) :
    (q.enqueue m'.topic m' m.topic).count m = (q m.topic).count m + [m'].count m := by
  by_cases ht : m.topic = m'.topic
  · rw [ht, q.enqueue_self, List.count_append]
  · have hm : m' ≠ m := fun h => ht (h ▸ rfl)
    rw [q.enqueue_of_ne _ ht, List.count_cons_of_ne hm, List.count_nil, Nat.add_zero]

theorem count_dequeue {q : FifoQueues String Message} {topic : String}
    (hq : ∀ m ∈ q topic, m.topic = topic) (m : Message) :
    (q.dequeue topic m.topic).count m + (q topic).head?.toList.count m = (q m.topic).count m := by
  by_cases ht : m.topic = topic
  · subst ht
    rw [q.dequeue_self]
    cases q m.topic with
    | nil => rfl
    | cons m' rest => simp [List.count_cons]
  · rw [q.dequeue_of_ne _ ht]
    cases hhead : q topic with
    | nil => rfl
    | cons m' rest =>
        have hm : m' ≠ m := fun h => ht (h ▸ hq m' (by simp [hhead]))
        simp [hm]

theorem Ledger.count_finish (ledger : Ledger) (id : String) (m : Message) :
    (ledger.finish id).outstanding.count m + (ledger.finish id).finished.count m =
      ledger.outstanding.count m + ledger.finished.count m := by
  have hcount := count_eraseP_add_find? ledger.outstanding (fun m => m.id = id) m
  simp only [Ledger.finish, Ledger.drop, List.count_append]
  omega

variable {backend} {x : S × Ledger} {a : Label}

theorem conserved_push (hv : backend.Valid x.1) (hx : Conserved backend x) (hb : Oblivious backend)
    (m : Message) :
    Conserved backend (backend.publish x.1 m, { x.2 with pushed := x.2.pushed ++ [m] }) where
  placed m' := by
    have hplaced := hx.placed m'
    simp only [backend.waiting_publish x.1 m hv, count_enqueue, List.count_append]
    omega
  home topic m' hm' := by
    simp only [backend.waiting_publish x.1 m hv] at hm'
    rcases FifoQueues.mem_enqueue _ _ hm' with hm' | ⟨rfl, rfl⟩
    · exact hx.home topic m' hm'
    · rfl
  idle id _ := ⟨hb.ack _ id, hb.nack _ id⟩

theorem conserved_pull (hv : backend.Valid x.1) (hx : Conserved backend x) (hb : Oblivious backend)
    (topic : String) :
    Conserved backend ((backend.consume x.1 topic).2,
      x.2.pull (backend.waiting x.1 topic).head?) where
  placed m := by
    have hplaced := hx.placed m
    have hcount := count_dequeue (hx.home topic) m
    simp only [backend.waiting_consume x.1 topic hv, Ledger.pull, List.count_append]
    omega
  home topic' m hm := by
    simp only [backend.waiting_consume x.1 topic hv] at hm
    exact hx.home topic' m (FifoQueues.mem_of_mem_dequeue _ _ hm)
  idle id _ := ⟨hb.ack _ id, hb.nack _ id⟩

theorem conserved_finish (hx : Conserved backend x) (hb : Oblivious backend) (id : String) :
    Conserved backend (x.1, x.2.finish id) where
  placed m := by
    have hplaced := hx.placed m
    have hcount := x.2.count_finish id m
    have hpushed : (x.2.finish id).pushed = x.2.pushed := rfl
    simp only [hpushed]
    omega
  home := hx.home
  idle id _ := ⟨hb.ack _ id, hb.nack _ id⟩

theorem drop_eq_self {ledger : Ledger} {id : String} (h : ¬ ledger.Outstanding id) :
    ledger.drop id = ledger := by
  have herase : ledger.outstanding.eraseP (fun m => m.id = id) = ledger.outstanding := by
    apply List.eraseP_of_forall_not
    intro m hm hid
    exact h ⟨m, hm, by simpa using hid⟩
  simp [Ledger.drop, herase]

/-- A message that is outstanding and rejected is in one place less. -/
theorem not_conserved_drop (hx : Conserved backend x) {id : String} (h : x.2.Outstanding id) :
    ¬ Conserved backend (x.1, x.2.drop id) := by
  intro hx'
  obtain ⟨m, hfind⟩ : ∃ m, x.2.outstanding.find? (fun m => m.id = id) = some m := by
    obtain ⟨m, hm, hid⟩ := h
    apply Option.isSome_iff_exists.1
    exact List.find?_isSome.2 ⟨m, hm, by simpa using hid⟩
  have hcount := count_eraseP_add_find? x.2.outstanding (fun m => m.id = id) m
  have hplaced := hx.placed m
  have hplaced' := hx'.placed m
  rw [hfind] at hcount
  simp only [Ledger.drop, Option.toList_some, List.count_singleton_self] at hcount hplaced'
  omega

theorem step_observed (x : S × Ledger) (a : Label) : (observed backend).step x a =
    some (a.apply backend x.1, note backend x.2 x.1 a (a.apply backend x.1)) := rfl

theorem valid_step (hb : Oblivious backend) {s : S} (hv : backend.Valid s) (a : Label) :
    backend.Valid (a.apply backend s) := by
  cases a with
  | push topic payload uuid =>
      cases payload with
      | none => exact hv
      | some text => exact backend.valid_publish _ _ hv
  | pull topic => exact backend.valid_consume _ _ hv
  | ack id =>
      rw [Label.apply, hb.ack]
      exact hv
  | nack id requeue =>
      rw [Label.apply, hb.nack]
      exact hv

theorem conserved_step (hb : Oblivious backend) (hv : backend.Valid x.1)
    (hx : Conserved backend x) (hc : Kept x a) :
    Conserved backend (a.apply backend x.1, note backend x.2 x.1 a (a.apply backend x.1)) := by
  cases a with
  | push topic payload uuid =>
      cases payload with
      | none => simpa [Label.apply, note, newMessage] using hx
      | some text => exact conserved_push hv hx hb _
  | pull topic =>
      simp only [Label.apply, note, backend.consume_result x.1 topic hv]
      exact conserved_pull hv hx hb topic
  | ack id =>
      simp only [Label.apply, note, hb.ack]
      exact conserved_finish hx hb id
  | nack id requeue =>
      cases requeue with
      | false =>
          simp only [Label.apply, note, hb.nack]
          exact conserved_finish hx hb id
      | true =>
          simp only [Label.apply, note, hb.nack, drop_eq_self (hc id rfl)]
          exact hx

theorem not_conserved_step (hb : Oblivious backend) (hx : Conserved backend x) (hc : ¬ Kept x a) :
    ¬ Conserved backend (a.apply backend x.1, note backend x.2 x.1 a (a.apply backend x.1)) := by
  simp only [Kept, not_forall, not_not] at hc
  obtain ⟨id, rfl, hid⟩ := hc
  simp only [Label.apply, note, hb.nack]
  exact not_conserved_drop hx hid

theorem conserved_init (hb : Oblivious backend) :
    Conserved backend (observed backend).init where
  placed m := by
    have hwaiting : backend.waiting (observed backend).init.1 = .empty := backend.waiting_init
    rw [hwaiting]
    rfl
  home topic m hm := by
    have hwaiting : backend.waiting (observed backend).init.1 = .empty := backend.waiting_init
    rw [hwaiting] at hm
    cases hm
  idle id _ := ⟨hb.ack _ id, hb.nack _ id⟩

theorem conserved_iff_kept (hb : Oblivious backend) (as : List Label) :
    (observed backend).Throughout (Conserved backend) (observed backend).init as ↔
      (observed backend).Along Kept (observed backend).init as := by
  obtain ⟨y, hy⟩ := (observed backend).exists_exec_of_total
    (fun x a => ⟨_, step_observed x a⟩)
    (observed backend).init as
  refine TransitionSystem.throughout_iff_along
    (I := fun x => backend.Valid x.1 ∧ Conserved backend x) (fun x h => h.2) ?_ ?_
    ⟨backend.valid_init, conserved_init hb⟩ hy
  · intro x a y ⟨hv, hx⟩ hc hstep
    obtain rfl := Option.some.inj ((step_observed x a).symm.trans hstep)
    exact ⟨valid_step hb hv a, conserved_step hb hv hx hc⟩
  · intro x a y ⟨_, hx⟩ hc hstep
    obtain rfl := Option.some.inj ((step_observed x a).symm.trans hstep)
    exact not_conserved_step hb hx hc

theorem memory_oblivious : Oblivious Memory.backend := ⟨fun _ _ => rfl, fun _ _ _ => rfl⟩

section Redis

variable {Text : Type} (json : SerdeJson Text) (refusal : Text → String)

theorem redis_oblivious : Oblivious (Redis.backend json refusal) :=
  ⟨fun _ _ => rfl, fun _ _ _ => rfl⟩

/-- In both backends messages are conserved throughout a run if and only if no outstanding message
is ever rejected for another delivery. -/
theorem nack_conserves_iff (as : List Label) :
    ((observed Memory.backend).Throughout (Conserved Memory.backend)
        (observed Memory.backend).init as ↔
      (observed Memory.backend).Along Kept (observed Memory.backend).init as) ∧
    ((observed (Redis.backend json refusal)).Throughout (Conserved (Redis.backend json refusal))
        (observed (Redis.backend json refusal)).init as ↔
      (observed (Redis.backend json refusal)).Along Kept
        (observed (Redis.backend json refusal)).init as) :=
  ⟨conserved_iff_kept memory_oblivious as, conserved_iff_kept (redis_oblivious json refusal) as⟩

end Redis

def jobId : Uuid := ⟨"00000000-0000-4000-8000-000000000000", rfl⟩

def rejected : List Label :=
  [.push "jobs" (some "1") jobId, .pull "jobs", .nack jobId.text true]

def job : Message := ⟨"jobs", "1", [], jobId.text⟩

/-- The rejected job was pushed, but it does not wait, nobody has it, and it is not finished. -/
theorem rejected_lost : ∃ x,
    (observed Memory.backend).exec (observed Memory.backend).init rejected = some x ∧
      x.2.pushed = [job] ∧ (x.1.consume "jobs").1 = .ok none ∧ x.2.outstanding = [] ∧
      x.2.finished = [] ∧ ¬ Conserved Memory.backend x := by
  refine ⟨_, rfl, rfl, rfl, rfl, rfl, ?_⟩
  intro hx
  cases hx.placed job

end Rszero.Queue.Nack
