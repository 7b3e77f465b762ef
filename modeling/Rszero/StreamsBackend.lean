import Rszero.QueueBackend
import Rszero.RedisStream

/-!
# The Redis Streams backend

One stream for each topic, with one consumer group, and a hash of the group that has the topic of
pending identifiers. `consume` fills the hash, the deliveries of `subscribe` and `claim_pending` do
not, and `ack` finds the topic of an identifier in it. An operation is one step; the streams are
known by the topics in their keys.
-/

namespace Rszero.Queue.Streams

open Outbox (Message)

/-- A message whose identifier is that of its entry. -/
structure Received (ι : Type) where
  topic : String
  payload : String
  headers : List (String × String)
  id : ι

structure State (ι κ Text : Type) [LinearOrder ι] where
  streams : String → RedisStream ι κ Text
  hash : ι → Option String

variable {ι κ Text : Type} [LinearOrder ι]

namespace State

variable (s : State ι κ Text)

def new : State ι κ Text := ⟨fun _ => .empty, fun _ => none⟩

def setStream (topic : String) (stream : RedisStream ι κ Text) : State ι κ Text :=
  { s with streams := Function.update s.streams topic stream }

def hsetnx (id : ι) (topic : String) : State ι κ Text :=
  { s with hash := Function.update s.hash id (some ((s.hash id).getD topic)) }

def hdel (id : ι) : State ι κ Text := { s with hash := Function.update s.hash id none }

def pel (topic : String) : List (Pending ι κ) := (s.streams topic).pel

def Delivered (topic : String) (id : ι) : Prop := (s.streams topic).Delivered id

end State

variable (json : SerdeJson Text) (refusal : Text → String)

/-- `parse_stream_entry`, on an entry as Redis replies it. -/
def parseStreamEntry (e : ι × Text) : Except RszeroError (Received ι) :=
  match Redis.fromText json e.2 with
  | some m => .ok ⟨m.topic, m.payload, m.headers, e.1⟩
  | none => .error (.queue s!"deserialize failed: {refusal e.2}" none)

variable (s : State ι κ Text)

def ensureGroup (topic : String) : State ι κ Text :=
  s.setStream topic (s.streams topic).xgroupCreate

/-- The identifier is the one that Redis makes for `*`. -/
def publish (m : Message) (id : ι) : Option (State ι κ Text) :=
  ((s.streams m.topic).xadd id (Redis.toText json m)).map (s.setStream m.topic)

def read (topic : String) (consumer : κ) : Option (ι × Text) × State ι κ Text :=
  (((s.streams topic).xreadgroup consumer).1,
    s.setStream topic ((s.streams topic).xreadgroup consumer).2)

def consume (topic : String) (consumer : κ) :
    Except RszeroError (Option (Received ι)) × State ι κ Text :=
  let r := read (ensureGroup s topic) topic consumer
  match r.1 with
  | none => (.ok none, r.2)
  | some e =>
      match parseStreamEntry json refusal e with
      | .ok m => (.ok (some m), r.2.hsetnx m.id topic)
      | .error err => (.error err, r.2)

/-- `RedisStreamsBackend::ack` -/
def ackTopic (topic : String) (id : ι) : State ι κ Text :=
  (s.setStream topic ((s.streams topic).xack id)).hdel id

def topicForId (id : ι) : Option String := s.hash id

/-- `QueueBackend::ack` -/
def ack (id : ι) : State ι κ Text :=
  match topicForId s id with
  | some topic => ackTopic s topic id
  | none => s

/-- A turn of the loop of `subscribe`, where `handled` tells whether the handler returns `Ok`. -/
def deliver (topic : String) (consumer : κ) (handled : Bool) : State ι κ Text :=
  let r := read s topic consumer
  match r.1 with
  | none => r.2
  | some e =>
      match parseStreamEntry json refusal e with
      | .ok m => if handled then ackTopic r.2 topic m.id else r.2
      | .error _ => r.2

/-- What does not parse is claimed, but not handed out. -/
def claimPending (topic : String) (consumer : κ) (min_idle_ms count : ℕ) (idle : ι → ℕ) :
    List (Received ι) × State ι κ Text :=
  let r := (s.streams topic).xautoclaim consumer min_idle_ms count idle
  (r.1.filterMap (fun e => (parseStreamEntry json refusal e).toOption), s.setStream topic r.2)

variable {json refusal s} {s' s'' : State ι κ Text} {topic topic' : String} {id : ι} {consumer : κ}

@[simp] theorem pel_setStream (stream : RedisStream ι κ Text) :
    (s.setStream topic stream).pel topic' =
      if topic' = topic then stream.pel else s.pel topic' := by
  simp only [State.pel, State.setStream, Function.update_apply]
  split_ifs <;> rfl

theorem delivered_setStream_iff {stream : RedisStream ι κ Text} :
    (s.setStream topic stream).Delivered topic' id ↔
      if topic' = topic then stream.Delivered id else s.Delivered topic' id := by
  simp only [State.Delivered, State.setStream, Function.update_apply]
  split_ifs <;> rfl

theorem delivered_setStream {stream : RedisStream ι κ Text}
    (h : ∀ id, s.Delivered topic id → stream.Delivered id) (topic' : String) (id : ι)
    (hid : s.Delivered topic' id) : (s.setStream topic stream).Delivered topic' id := by
  rw [delivered_setStream_iff]
  split_ifs with ht
  · exact h id (ht ▸ hid)
  · exact hid

theorem pel_ackTopic : (ackTopic s topic id).pel topic' =
    if topic' = topic then (s.pel topic').filter (fun p => p.id ≠ id) else s.pel topic' := by
  have hhdel : (ackTopic s topic id).pel topic' =
      (s.setStream topic ((s.streams topic).xack id)).pel topic' := rfl
  rw [hhdel, pel_setStream, RedisStream.pel_xack]
  split_ifs with ht
  · rw [ht]
    rfl
  · rfl

structure Keeps (s s' : State ι κ Text) : Prop where
  hash : s'.hash = s.hash
  ids : ∀ topic, (s'.pel topic).map Pending.id = (s.pel topic).map Pending.id
  delivered : ∀ topic id, s.Delivered topic id → s'.Delivered topic id

/-- The group of a topic is handed an entry for the first time. -/
structure Hands (s s' : State ι κ Text) (topic : String) (id : ι) : Prop where
  hash : s'.hash = s.hash
  ids : ∀ topic', (s'.pel topic').map Pending.id =
    if topic' = topic then (s.pel topic').map Pending.id ++ [id]
    else (s.pel topic').map Pending.id
  fresh : ¬ s.Delivered topic id
  now : s'.Delivered topic id
  delivered : ∀ topic id, s.Delivered topic id → s'.Delivered topic id

theorem Keeps.hands (h : Keeps s s') (h' : Hands s' s'' topic id) : Hands s s'' topic id where
  hash := h'.hash.trans h.hash
  ids topic' := by rw [h'.ids, h.ids]
  fresh hid := h'.fresh (h.delivered topic id hid)
  now := h'.now
  delivered topic' id' hid := h'.delivered topic' id' (h.delivered topic' id' hid)

theorem Keeps.trans (h : Keeps s s') (h' : Keeps s' s'') : Keeps s s'' where
  hash := h'.hash.trans h.hash
  ids topic := (h'.ids topic).trans (h.ids topic)
  delivered topic id hid := h'.delivered topic id (h.delivered topic id hid)

/-- Changing one stream keeps what it keeps of that stream. -/
theorem keeps_setStream {stream : RedisStream ι κ Text}
    (hids : stream.pel.map Pending.id = (s.pel topic).map Pending.id)
    (hdelivered : ∀ id, s.Delivered topic id → stream.Delivered id) :
    Keeps s (s.setStream topic stream) where
  hash := rfl
  ids topic' := by
    rw [pel_setStream]
    split_ifs with ht
    · rw [ht, hids]
    · rfl
  delivered := delivered_setStream hdelivered

theorem keeps_publish {m : Outbox.Message} (h : publish json s m id = some s') : Keeps s s' := by
  obtain ⟨stream, hadd, rfl⟩ := Option.map_eq_some_iff.1 h
  exact keeps_setStream (by rw [RedisStream.pel_xadd hadd]; rfl) (fun _ hid => hid.xadd hadd)

theorem keeps_ensureGroup (s : State ι κ Text) (topic : String) : Keeps s (ensureGroup s topic) :=
  keeps_setStream (by rw [RedisStream.pel_xgroupCreate]; rfl) (fun _ hid => hid.xgroupCreate)

theorem keeps_claimPending (s : State ι κ Text) (topic : String) (consumer : κ)
    (min_idle_ms count : ℕ) (idle : ι → ℕ) :
    Keeps s (claimPending json refusal s topic consumer min_idle_ms count idle).2 :=
  keeps_setStream (RedisStream.pel_ids_xautoclaim ..) (fun _ hid => hid.xautoclaim ..)

theorem read_spec (s : State ι κ Text) (topic : String) (consumer : κ) :
    ((read s topic consumer).1 = none ∧ Keeps s (read s topic consumer).2) ∨
      ∃ e, (read s topic consumer).1 = some e ∧
        Hands s (read s topic consumer).2 topic e.1 := by
  cases hread : (s.streams topic).xreadgroup consumer with
  | mk o stream =>
      cases o with
      | none =>
          obtain rfl := RedisStream.xreadgroup_eq_none hread
          refine .inl ⟨by rw [read, hread], ?_⟩
          rw [read, hread]
          exact keeps_setStream rfl (fun _ hid => hid)
      | some e =>
          obtain ⟨hfresh, hnow, hmono⟩ := RedisStream.delivered_xreadgroup hread
          refine .inr ⟨e, by rw [read, hread], ?_⟩
          rw [read, hread]
          exact {
            hash := rfl
            ids := fun topic' => by
              rw [pel_setStream]
              split_ifs with ht
              · rw [RedisStream.pel_xreadgroup hread, ht, List.map_append]
                rfl
              · rfl
            fresh := hfresh
            now := by
              rw [delivered_setStream_iff, if_pos rfl]
              exact hnow
            delivered := delivered_setStream hmono }

omit [LinearOrder ι] in
theorem parseStreamEntry_id {e : ι × Text} {m : Received ι}
    (h : parseStreamEntry json refusal e = .ok m) : m.id = e.1 := by
  unfold parseStreamEntry at h
  split at h <;> cases h
  rfl

theorem delivered_ackTopic {topic' : String} {id' : ι} (h : s.Delivered topic' id') :
    (ackTopic s topic id).Delivered topic' id' :=
  delivered_setStream (fun _ hid => hid.xack id) topic' id' h

/-- Only what is pending is claimed. -/
theorem mem_claimable_of_mem_claimPending {min_idle_ms count : ℕ} {idle : ι → ℕ} {m : Received ι}
    (h : m ∈ (claimPending json refusal s topic consumer min_idle_ms count idle).1) :
    m.id ∈ (s.streams topic).claimable min_idle_ms count idle := by
  obtain ⟨e, he, hparse⟩ := List.mem_filterMap.1 h
  have hm : parseStreamEntry json refusal e = .ok m := by
    cases hp : parseStreamEntry json refusal e with
    | error err =>
        rw [hp] at hparse
        cases hparse
    | ok m' =>
        rw [hp] at hparse
        exact congrArg _ (Option.some.inj hparse)
  rw [parseStreamEntry_id hm]
  exact of_decide_eq_true (List.mem_filter.1 he).2

theorem mem_pel_of_mem_claimPending {min_idle_ms count : ℕ} {idle : ι → ℕ} {m : Received ι}
    (h : m ∈ (claimPending json refusal s topic consumer min_idle_ms count idle).1) :
    m.id ∈ (s.pel topic).map Pending.id :=
  RedisStream.mem_pel_of_mem_claimable (mem_claimable_of_mem_claimPending h)

variable (json refusal)

/-- `consume` reads, and puts what it returns into the hash. -/
theorem consume_spec (s : State ι κ Text) (topic : String) (consumer : κ) :
    ((∀ m, (consume json refusal s topic consumer).1 ≠ .ok (some m)) ∧
      (Keeps s (consume json refusal s topic consumer).2 ∨
        ∃ id, Hands s (consume json refusal s topic consumer).2 topic id)) ∨
    ∃ m s', (consume json refusal s topic consumer).1 = .ok (some m) ∧
      (consume json refusal s topic consumer).2 = s'.hsetnx m.id topic ∧ Hands s s' topic m.id := by
  have hensure := keeps_ensureGroup s topic
  unfold consume
  rcases read_spec (ensureGroup s topic) topic consumer with ⟨hread, hkeeps⟩ | ⟨e, hread, hhands⟩
  · simp only [hread]
    exact .inl ⟨nofun, .inl (hensure.trans hkeeps)⟩
  · simp only [hread]
    cases hparse : parseStreamEntry json refusal e with
    | error err => exact .inl ⟨nofun, .inr ⟨e.1, hensure.hands hhands⟩⟩
    | ok m => exact .inr ⟨m, _, rfl, rfl, parseStreamEntry_id hparse ▸ hensure.hands hhands⟩

/-- A delivery whose handler fails is a read. -/
theorem deliver_spec (s : State ι κ Text) (topic : String) (consumer : κ) :
    Keeps s (deliver json refusal s topic consumer false) ∨
      ∃ id, Hands s (deliver json refusal s topic consumer false) topic id := by
  unfold deliver
  rcases read_spec s topic consumer with ⟨hread, hkeeps⟩ | ⟨e, hread, hhands⟩
  · simp only [hread]
    exact .inl hkeeps
  · simp only [hread]
    cases parseStreamEntry json refusal e with
    | error err => exact .inr ⟨e.1, hhands⟩
    | ok m => exact .inr ⟨e.1, hhands⟩

end Rszero.Queue.Streams
