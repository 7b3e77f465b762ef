import Rszero.QueueBackend

/-!
# The memory queue

Any interleaving of clients is a sequence of operations, since each of them holds the lock. What
was pulled from a topic is what was pushed to it, up to what still waits.
-/

namespace Rszero.Queue

open Outbox (Message Uuid)

/-- `Message::new`. The payload comes as text, when it serializes at all. -/
def newMessage (topic : String) (payload : Option String) (uuid : Uuid) : Option Message :=
  payload.map (fun text => ⟨topic, text, [], uuid.text⟩)

namespace MemoryQueue

inductive Op
  | push (topic : String) (payload : Option String) (uuid : Uuid)
  | pull (topic : String)
  | pendingCount (topic : String)

def Op.topic : Op → String
  | .push topic _ _ | .pull topic | .pendingCount topic => topic

def Op.apply (s : Memory) : Op → Memory
  | .push topic payload uuid =>
      match newMessage topic payload uuid with
      | some m => s.publish m
      | none => s
  | .pull topic => (s.consume topic).2
  | .pendingCount _ => s

abbrev Log := FifoQueues.History String Message

/-- What the clients have seen: the pushes that returned `Ok`, and the messages that the pulls
returned. -/
def Op.note (s : Memory) (log : Log) : Op → Log
  | .push topic payload uuid =>
      match newMessage topic payload uuid with
      | some m => log.push topic m
      | none => log
  | .pull topic =>
      match (s.consume topic).1 with
      | .ok m => log.pull topic m
      | .error _ => log
  | .pendingCount _ => log

def Op.run (x : Memory × Log) (op : Op) : Memory × Log := (op.apply x.1, op.note x.1 x.2)

def run (ops : List Op) : Memory × Log := ops.foldl Op.run (.new, .empty)

/-- First in first out, for each topic, and what an operation sees next. -/
structure Faithful (s : Memory) (log : Log) : Prop where
  inOrder : ∀ topic, log.pulled topic <+: log.pushed topic
  count : ∀ topic, s.pending topic = (log.pushed topic).length - (log.pulled topic).length
  next : ∀ topic, (s.consume topic).1 = .ok (log.pushed topic)[(log.pulled topic).length]?
  empty : ∀ topic, (s.consume topic).1 = .ok none ↔
    (log.pushed topic).length - (log.pulled topic).length = 0
  frame : ∀ (op : Op) (topic : String), topic ≠ op.topic →
    (op.apply s).messages topic = s.messages topic

variable {s : Memory} {log : Log}

theorem tracks_step (h : s.waiting.Tracks log) (op : Op) :
    (op.apply s).waiting.Tracks (op.note s log) := by
  cases op with
  | push topic payload uuid =>
      cases payload with
      | none => exact h
      | some text =>
          change (s.publish ⟨topic, text, [], uuid.text⟩).waiting.Tracks (log.push topic _)
          rw [s.waiting_publish]
          exact h.push _
  | pull topic =>
      simp only [Op.apply, Op.note, s.consume_result topic, s.waiting_consume topic]
      exact h.pull
  | pendingCount topic => exact h

theorem tracks_foldl {x : Memory × Log} (h : x.1.waiting.Tracks x.2) (ops : List Op) :
    (ops.foldl Op.run x).1.waiting.Tracks (ops.foldl Op.run x).2 := by
  induction ops generalizing x with
  | nil => exact h
  | cons op ops ih => exact ih (tracks_step h op)

theorem apply_messages (s : Memory) (op : Op) {topic : String} (ht : topic ≠ op.topic) :
    (op.apply s).messages topic = s.messages topic := by
  cases op with
  | push topic' payload uuid =>
      cases payload with
      | none => rfl
      | some text => exact Function.update_of_ne ht ..
  | pull topic' =>
      simp only [Op.apply, Memory.consume]
      cases s.messages topic' with
      | none => rfl
      | some q => exact Function.update_of_ne ht ..
  | pendingCount topic' => rfl

theorem faithful_of_tracks (h : s.waiting.Tracks log) : Faithful s log where
  inOrder := h.pulled_prefix
  count topic := by rw [s.pending_eq, h.length_waiting]
  next topic := by
    rw [s.consume_result, ← h topic, List.getElem?_append_right (Nat.le_refl _), Nat.sub_self,
      List.head?_eq_getElem?]
  empty topic := by
    rw [s.consume_result, ← h.head?_eq_none_iff]
    simp
  frame op topic ht := apply_messages s op ht

/-- Every run of the memory queue is first in first out for each topic. -/
theorem memory_fifo (ops : List Op) : Faithful (run ops).1 (run ops).2 :=
  faithful_of_tracks (tracks_foldl (x := (.new, .empty)) FifoQueues.tracks_empty ops)

end MemoryQueue
end Rszero.Queue
