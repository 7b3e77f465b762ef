import Rszero.Error
import Rszero.FifoQueues
import Rszero.Json
import Rszero.Outbox

/-!
# Queue backends

The operations of a queue backend, and two backends: `memory` keeps a queue of messages for each
topic, `redis` a list of texts under a key for each topic, pushed at one end and popped at the
other. Both are first in first out, and neither of them does anything for `ack` and `nack`.
-/

namespace Rszero.Queue

open Outbox (Message)

/-- `subscribe` and `close` are left out. -/
structure QueueBackend (S : Type) where
  publish : S → Message → S
  consume : S → String → Except RszeroError (Option Message) × S
  pending : S → String → ℕ
  ack : S → String → S
  nack : S → String → Bool → S

/-- A backend whose topics are first in first out queues. -/
structure FifoBackend (S : Type) extends QueueBackend S where
  init : S
  Valid : S → Prop
  waiting : S → FifoQueues String Message
  valid_init : Valid init
  waiting_init : waiting init = .empty
  valid_publish : ∀ s m, Valid s → Valid (publish s m)
  waiting_publish : ∀ s m, Valid s → waiting (publish s m) = (waiting s).enqueue m.topic m
  consume_result : ∀ s topic, Valid s → (consume s topic).1 = .ok (waiting s topic).head?
  valid_consume : ∀ s topic, Valid s → Valid (consume s topic).2
  waiting_consume : ∀ s topic, Valid s →
    waiting (consume s topic).2 = (waiting s).dequeue topic
  pending_eq : ∀ s topic, Valid s → pending s topic = (waiting s topic).length

def serialize (m : Message) : Json :=
  .obj [("topic", .str m.topic), ("payload", .str m.payload), ("headers", .ofStrMap m.headers),
    ("id", .str m.id)]

def deserialize (v : Json) : Option Message := do
  let fields ← v.structFields ["topic", "payload", "headers", "id"]
  let topic ← fields[0]?.join.bind Json.asStr
  let payload ← fields[1]?.join.bind Json.asStr
  let headers ← fields[2]?.join.bind Json.asStrMap
  let id ← fields[3]?.join.bind Json.asStr
  return ⟨topic, payload, headers, id⟩

theorem deserialize_serialize (m : Message) : deserialize (serialize m) = some m := by
  simp [serialize, deserialize, Json.structFields, List.lookup_cons]

/-- `HashMap<String, VecDeque<Message>>` -/
structure Memory where
  messages : String → Option (List Message)

namespace Memory

def new : Memory := ⟨fun _ => none⟩

def publish (s : Memory) (m : Message) : Memory :=
  ⟨Function.update s.messages m.topic (some ((s.messages m.topic).getD [] ++ [m]))⟩

def consume (s : Memory) (topic : String) : Except RszeroError (Option Message) × Memory :=
  match s.messages topic with
  | some q => (.ok q.head?, ⟨Function.update s.messages topic (some q.tail)⟩)
  | none => (.ok none, s)

def pending (s : Memory) (topic : String) : ℕ :=
  ((s.messages topic).map List.length).getD 0

def waiting (s : Memory) : FifoQueues String Message := fun topic => (s.messages topic).getD []

theorem waiting_publish (s : Memory) (m : Message) :
    (s.publish m).waiting = s.waiting.enqueue m.topic m := by
  funext topic
  by_cases ht : topic = m.topic
  · subst ht
    simp [waiting, publish]
  · simp [waiting, publish, FifoQueues.enqueue, ht]

theorem consume_result (s : Memory) (topic : String) :
    (s.consume topic).1 = .ok (s.waiting topic).head? := by
  unfold consume waiting
  cases s.messages topic <;> rfl

theorem waiting_consume (s : Memory) (topic : String) :
    (s.consume topic).2.waiting = s.waiting.dequeue topic := by
  funext topic'
  unfold consume
  by_cases ht : topic' = topic
  · subst ht
    cases hq : s.messages topic' <;> simp [waiting, hq]
  · cases hq : s.messages topic <;> simp [waiting, FifoQueues.dequeue, ht]

theorem pending_eq (s : Memory) (topic : String) : s.pending topic = (s.waiting topic).length := by
  unfold pending waiting
  cases s.messages topic <;> rfl

def backend : FifoBackend Memory where
  publish := publish
  consume := consume
  pending := pending
  ack s _ := s
  nack s _ _ := s
  init := new
  Valid _ := True
  waiting := waiting
  valid_init := trivial
  waiting_init := rfl
  valid_publish _ _ _ := trivial
  waiting_publish s m _ := s.waiting_publish m
  consume_result s topic _ := s.consume_result topic
  valid_consume _ _ _ := trivial
  waiting_consume s topic _ := s.waiting_consume topic
  pending_eq s topic _ := s.pending_eq topic

end Memory

/-- The lists under their keys, the side that `LPUSH` pushes to first. -/
structure Redis (Text : Type) where
  lists : String → List Text

namespace Redis

variable {Text : Type} (json : SerdeJson Text) (refusal : Text → String)

def queueKey (topic : String) : String := "rszero:queue:" ++ topic

def toText (m : Message) : Text := json.toText (serialize m)

def fromText (text : Text) : Option Message := (json.fromText text).bind deserialize

def publish (s : Redis Text) (m : Message) : Redis Text :=
  ⟨Function.update s.lists (queueKey m.topic) (toText json m :: s.lists (queueKey m.topic))⟩

/-- `refusal` is what the deserialization says of a text that it refuses. -/
def consume (s : Redis Text) (topic : String) :
    Except RszeroError (Option Message) × Redis Text :=
  match (s.lists (queueKey topic)).getLast? with
  | none => (.ok none, s)
  | some text =>
      let s' := ⟨Function.update s.lists (queueKey topic) (s.lists (queueKey topic)).dropLast⟩
      match fromText json text with
      | some m => (.ok (some m), s')
      | none => (.error (.queue s!"deserialize failed: {refusal text}" none), s')

def pending (s : Redis Text) (topic : String) : ℕ := (s.lists (queueKey topic)).length

def Valid (s : Redis Text) : Prop := ∀ key, ∀ text ∈ s.lists key, ∃ m, text = toText json m

def waiting (s : Redis Text) : FifoQueues String Message :=
  fun topic => (s.lists (queueKey topic)).reverse.filterMap (fromText json)

theorem queueKey_inj {topic topic' : String} :
    queueKey topic = queueKey topic' ↔ topic = topic' := by
  unfold queueKey
  rw [← String.toList_inj, String.toList_append, String.toList_append,
    List.append_cancel_left_eq, String.toList_inj]

variable {json}

theorem fromText_toText (m : Message) : fromText json (toText json m) = some m := by
  simp [fromText, toText, json.fromText_toText, deserialize_serialize]

theorem waiting_publish (s : Redis Text) (m : Message) :
    (s.publish json m).waiting json = (s.waiting json).enqueue m.topic m := by
  funext topic
  by_cases ht : topic = m.topic
  · subst ht
    simp [waiting, publish, fromText_toText]
  · rw [FifoQueues.enqueue_of_ne _ _ ht]
    have hkey : queueKey topic ≠ queueKey m.topic := fun h => ht (queueKey_inj.1 h)
    simp [waiting, publish, hkey]

theorem valid_publish {s : Redis Text} (h : s.Valid json) (m : Message) :
    (s.publish json m).Valid json := by
  intro key text htext
  simp only [publish, Function.update_apply] at htext
  split_ifs at htext with hkey
  · rcases List.mem_cons.1 htext with rfl | htext
    · exact ⟨m, rfl⟩
    · exact h _ text htext
  · exact h key text htext

/-- The next message of a topic is the one pushed first. -/
theorem lists_eq {s : Redis Text} (h : s.Valid json) (topic : String) :
    (s.lists (queueKey topic) = [] ∧ s.waiting json topic = []) ∨
      ∃ rest m, s.lists (queueKey topic) = rest ++ [toText json m] ∧
        s.waiting json topic = m :: rest.reverse.filterMap (fromText json) := by
  rcases List.eq_nil_or_concat (s.lists (queueKey topic)) with hnil | ⟨rest, text, hlist⟩
  · exact .inl ⟨hnil, by simp [waiting, hnil]⟩
  · obtain ⟨m, rfl⟩ := h (queueKey topic) text (by simp [hlist])
    exact .inr ⟨rest, m, by simpa using hlist, by simp [waiting, hlist, fromText_toText]⟩

theorem consume_eq {s : Redis Text} (h : s.Valid json) (topic : String) :
    s.consume json refusal topic = (.ok (s.waiting json topic).head?,
      ⟨Function.update s.lists (queueKey topic) (s.lists (queueKey topic)).dropLast⟩) := by
  rcases lists_eq h topic with ⟨hlist, hwaiting⟩ | ⟨rest, m, hlist, hwaiting⟩
  · have hsame : Function.update s.lists (queueKey topic) [] = s.lists := by
      rw [← hlist, Function.update_eq_self]
    simp [consume, hlist, hwaiting, hsame]
  · simp [consume, hlist, hwaiting, fromText_toText]

theorem waiting_pop {s : Redis Text} (h : s.Valid json) (topic : String) :
    waiting json ⟨Function.update s.lists (queueKey topic)
      (s.lists (queueKey topic)).dropLast⟩ = (s.waiting json).dequeue topic := by
  funext topic'
  by_cases ht : topic' = topic
  · subst ht
    rcases lists_eq h topic' with ⟨hlist, -⟩ | ⟨rest, m, hlist, -⟩
    · simp [waiting, hlist]
    · simp [waiting, hlist, fromText_toText]
  · rw [FifoQueues.dequeue_of_ne _ _ ht]
    have hkey : queueKey topic' ≠ queueKey topic := fun h => ht (queueKey_inj.1 h)
    simp [waiting, hkey]

theorem valid_pop {s : Redis Text} (h : s.Valid json) (key : String) :
    Valid json ⟨Function.update s.lists key (s.lists key).dropLast⟩ := by
  intro key' text htext
  simp only [Function.update_apply] at htext
  split_ifs at htext with hkey
  · exact h key text (List.dropLast_subset _ htext)
  · exact h key' text htext

theorem pending_eq {s : Redis Text} (h : s.Valid json) (topic : String) :
    s.pending topic = (s.waiting json topic).length := by
  have hsome : ∀ text ∈ (s.lists (queueKey topic)).reverse, (fromText json text).isSome := by
    intro text htext
    obtain ⟨m, rfl⟩ := h _ text (List.mem_reverse.1 htext)
    simp [fromText_toText]
  rw [waiting, List.filterMap_length_eq_length.2 hsome, List.length_reverse]
  rfl

variable (json)

def backend : FifoBackend (Redis Text) where
  publish := publish json
  consume := consume json refusal
  pending := pending
  ack s _ := s
  nack s _ _ := s
  init := ⟨fun _ => []⟩
  Valid := Valid json
  waiting := waiting json
  valid_init _ _ h := by cases h
  waiting_init := rfl
  valid_publish _ m h := valid_publish h m
  waiting_publish s m _ := s.waiting_publish m
  consume_result s topic h := by rw [consume_eq refusal h]
  valid_consume s topic h := by
    rw [consume_eq refusal h]
    exact valid_pop h _
  waiting_consume s topic h := by rw [consume_eq refusal h, waiting_pop h]
  pending_eq s topic h := pending_eq h topic

end Redis

end Rszero.Queue
