import Rszero.StreamsBackend
import Rszero.TransitionSystem

/-!
# Delivery by consumer groups

The loop of `subscribe` reads an entry, hands it to the handler, and acknowledges it when the
handler succeeds. What a subscriber that stops has read stays pending, and `claim_pending` hands it
out again. Any number of subscribers, publishers and clients take steps in any order; a command
whose reply is lost may have reached Redis or not.
-/

namespace Rszero.Queue.Streams

open Outbox (Message)

/-- The point that the loop has reached; `stopped` is a task that has ended. -/
inductive Stage (ι : Type)
  | reading
  | handling (m : Received ι)
  | acking (id : ι)
  | clearing (id : ι)
  | stopped

structure Subscriber (ι κ : Type) where
  topic : String
  consumer : κ
  stage : Stage ι

def afterRead {ι Text : Type} (json : SerdeJson Text) (refusal : Text → String)
    (reply : Option (ι × Text)) : Stage ι :=
  match reply with
  | none => .reading
  | some e =>
      match parseStreamEntry json refusal e with
      | .ok m => .handling m
      | .error _ => .reading

variable {ι κ Text : Type} [LinearOrder ι]

structure Delivery (ι κ Text : Type) [LinearOrder ι] where
  streams : State ι κ Text
  subscribers : List (Subscriber ι κ)

namespace Delivery

/-- `created` and `sent` tell whether a command reaches Redis, and `received` whether the reply
reaches the subscriber. -/
inductive Label (ι κ : Type)
  | publish (m : Message) (id : ι)
  | consume (topic : String) (consumer : κ)
  | claimPending (topic : String) (consumer : κ) (min_idle_ms count : ℕ) (idle : ι → ℕ)
  | ack (id : ι)
  | subscribe (topic : String) (consumer : κ) (created : Bool)
  | read (i : ℕ) (received : Bool)
  | handled (i : ℕ) (ok : Bool)
  | xack (i : ℕ) (sent : Bool)
  | hdel (i : ℕ) (sent : Bool)
  | stop (i : ℕ)

variable (json : SerdeJson Text) (refusal : Text → String)

def turn (s : Delivery ι κ Text) (i : ℕ)
    (f : Subscriber ι κ → Option (Stage ι × State ι κ Text)) : Option (Delivery ι κ Text) :=
  (s.subscribers[i]?).bind fun sub =>
    (f sub).map fun r => ⟨r.2, s.subscribers.set i { sub with stage := r.1 }⟩

def step (s : Delivery ι κ Text) : Label ι κ → Option (Delivery ι κ Text)
  | .publish m id => (publish json s.streams m id).map fun streams => { s with streams }
  | .consume topic consumer =>
      some { s with streams := (consume json refusal s.streams topic consumer).2 }
  | .claimPending topic consumer min_idle_ms count idle => some { s with
      streams := (claimPending json refusal s.streams topic consumer min_idle_ms count idle).2 }
  | .ack id => some { s with streams := Streams.ack s.streams id }
  | .subscribe topic consumer created => some
      ⟨if created then ensureGroup s.streams topic else s.streams,
        s.subscribers ++ [⟨topic, consumer, .reading⟩]⟩
  | .read i received => s.turn i fun sub =>
      match sub.stage with
      | .reading =>
          let r := read s.streams sub.topic sub.consumer
          some (if received then afterRead json refusal r.1 else .reading, r.2)
      | _ => none
  | .handled i ok => s.turn i fun sub =>
      match sub.stage with
      | .handling m => some (if ok then .acking m.id else .reading, s.streams)
      | _ => none
  | .xack i sent => s.turn i fun sub =>
      match sub.stage with
      | .acking id =>
          some (.clearing id,
            if sent then s.streams.setStream sub.topic ((s.streams.streams sub.topic).xack id)
            else s.streams)
      | _ => none
  | .hdel i sent => s.turn i fun sub =>
      match sub.stage with
      | .clearing id => some (.reading, if sent then s.streams.hdel id else s.streams)
      | _ => none
  | .stop i => s.turn i fun _ => some (.stopped, s.streams)

def system : TransitionSystem (Delivery ι κ Text) (Label ι κ) := ⟨⟨.new, []⟩, step json refusal⟩

/-- The entries of a topic that were published since its group exists, those read by `XREADGROUP`,
those that have left the pending entries, those that a handler was done with, and those that a
client has acknowledged. -/
structure Log (ι : Type) where
  kept : List ι
  reads : List ι
  acked : List ι
  handled : List ι
  asked : List ι

namespace Log

variable (log : Log ι) (stream : RedisStream ι κ Text) (id : ι)

def empty : Log ι := ⟨[], [], [], [], []⟩

def keep : Log ι := if stream.group.isSome then { log with kept := log.kept ++ [id] } else log

def read (e : Option (ι × Text)) : Log ι :=
  e.elim log fun e => { log with reads := log.reads ++ [e.1] }

def handle : Log ι := { log with handled := log.handled ++ [id] }

def ask : Log ι := { log with asked := log.asked ++ [id] }

def settle : Log ι :=
  if stream.fate id = some .pending then { log with acked := log.acked ++ [id] } else log

end Log

abbrev History (ι : Type) := String → Log ι

def note (h : History ι) (s : Delivery ι κ Text) (a : Label ι κ) (_ : Delivery ι κ Text) :
    History ι :=
  match a with
  | .publish m id =>
      Function.update h m.topic ((h m.topic).keep (s.streams.streams m.topic) id)
  | .consume topic consumer => Function.update h topic
      ((h topic).read (read (ensureGroup s.streams topic) topic consumer).1)
  | .ack id => (topicForId s.streams id).elim h fun topic => Function.update h topic
      (((h topic).ask id).settle (s.streams.streams topic) id)
  | .read i _ => (s.subscribers[i]?).elim h fun sub => Function.update h sub.topic
      ((h sub.topic).read (read s.streams sub.topic sub.consumer).1)
  | .handled i ok => (s.subscribers[i]?).elim h fun sub =>
      match sub.stage with
      | .handling m =>
          if ok then Function.update h sub.topic ((h sub.topic).handle m.id) else h
      | _ => h
  | .xack i sent => (s.subscribers[i]?).elim h fun sub =>
      match sub.stage with
      | .acking id =>
          if sent then
            Function.update h sub.topic
              ((h sub.topic).settle (s.streams.streams sub.topic) id)
          else h
      | _ => h
  | _ => h

def observed : TransitionSystem (Delivery ι κ Text × History ι) (Label ι κ) :=
  (system json refusal).observe (fun _ => .empty) note

structure Tracks (topic : String) (stream : RedisStream ι κ Text) (log : Log ι) : Prop where
  written : ∀ e ∈ stream.entries, ∃ m : Message, m.topic = topic ∧ e.2 = Redis.toText json m
  stored : ∀ id ∈ log.kept, id ∈ stream.entries.map Prod.fst
  increasing : log.kept.Pairwise (· < ·)
  kept : ∀ id, id ∈ log.kept ↔ (stream.fate id).isSome ∨ id ∈ log.acked
  settled : ∀ id ∈ log.acked, stream.fate id = none
  caused : ∀ id ∈ log.acked, id ∈ log.handled ∨ id ∈ log.asked
  order : ∀ g, stream.group = some g → log.reads ++ (stream.unread g).map Prod.fst = log.kept
  ungrouped : stream.group = none → log.kept = [] ∧ log.reads = []

variable {json refusal} {topic : String} {stream stream' : RedisStream ι κ Text} {log : Log ι}
  {id : ι}

theorem tracks_empty : Tracks json topic (.empty : RedisStream ι κ Text) .empty where
  written _ h := by cases h
  stored _ h := by cases h
  increasing := .nil
  kept id := iff_of_false nofun nofun
  settled _ h := by cases h
  caused _ h := by cases h
  order _ h := by cases h
  ungrouped _ := ⟨rfl, rfl⟩

theorem Tracks.handle (h : Tracks json topic stream log) (id : ι) :
    Tracks json topic stream (log.handle id) :=
  { h with caused := fun id' hid' => (h.caused id' hid').imp_left (List.mem_append_left _) }

theorem Tracks.ask (h : Tracks json topic stream log) (id : ι) :
    Tracks json topic stream (log.ask id) :=
  { h with caused := fun id' hid' => (h.caused id' hid').imp_right (List.mem_append_left _) }

theorem Tracks.xadd {m : Message} (h : Tracks json topic stream log) (hm : m.topic = topic)
    (hadd : stream.xadd id (Redis.toText json m) = some stream') :
    Tracks json topic stream' (log.keep stream id) := by
  obtain ⟨hentries, hgroup, hunread⟩ := RedisStream.xadd_eq_some hadd
  have hfate := RedisStream.fate_xadd hadd
  have hwritten : ∀ e ∈ stream'.entries, ∃ m : Message, m.topic = topic ∧
      e.2 = Redis.toText json m := by
    intro e he
    rw [hentries, List.mem_append, List.mem_singleton] at he
    rcases he with he | rfl
    · exact h.written e he
    · exact ⟨m, hm, rfl⟩
  have hstored : ∀ id' ∈ log.kept, id' ∈ stream'.entries.map Prod.fst := by
    intro id' hid'
    rw [hentries, List.map_append]
    exact List.mem_append_left _ (h.stored id' hid')
  cases hg : stream.group with
  | none =>
      have hsame (id' : ι) : stream'.fate id' = stream.fate id' := by simp [hfate, hg]
      rw [Log.keep, hg, if_neg (by simp)]
      exact {
        written := hwritten
        stored := hstored
        increasing := h.increasing
        kept := fun id' => by rw [hsame, h.kept]
        settled := fun id' hid' => by rw [hsame, h.settled id' hid']
        caused := h.caused
        order := fun g hg' => by rw [hgroup, hg] at hg'; cases hg'
        ungrouped := fun _ => h.ungrouped hg }
  | some g =>
      have hnew (id' : ι) : stream'.fate id' = if id' = id then some .unread
          else stream.fate id' := by simp [hfate, hg]
      -- The identifier is above those of all entries, so no log has it.
      have hfresh : id ∉ log.kept := by
        intro hmem
        obtain ⟨e, he, heq⟩ := List.mem_map.1 (h.stored id hmem)
        exact absurd (heq ▸ RedisStream.lt_of_xadd hadd e he) (lt_irrefl _)
      have hunacked : id ∉ log.acked := fun hmem => hfresh ((h.kept id).2 (.inr hmem))
      rw [Log.keep, hg, Option.isSome_some, if_pos rfl]
      exact {
        written := hwritten
        stored := fun id' hid' => by
          rcases List.mem_append.1 hid' with hid' | hid'
          · exact hstored id' hid'
          · rw [List.mem_singleton.1 hid', hentries]
            simp
        increasing := List.pairwise_append.2 ⟨h.increasing, List.pairwise_singleton .., by
          intro id' hid' id'' hid''
          obtain ⟨e, he, rfl⟩ := List.mem_map.1 (h.stored id' hid')
          rw [List.mem_singleton.1 hid'']
          exact RedisStream.lt_of_xadd hadd e he⟩
        kept := fun id' => by
          rw [hnew, List.mem_append, List.mem_singleton, h.kept]
          by_cases hid : id' = id <;> simp [hid]
        settled := fun id' hid' => by
          rw [hnew, if_neg (fun heq : id' = id => hunacked (heq ▸ hid'))]
          exact h.settled id' hid'
        caused := h.caused
        order := fun g' hg' => by
          obtain rfl := Option.some.inj (hg'.symm.trans (hgroup.trans hg))
          rw [hunread _ hg, List.map_append, ← List.append_assoc, h.order _ hg]
          rfl
        ungrouped := fun hnone => by rw [hgroup, hg] at hnone; cases hnone }

theorem Tracks.xgroupCreate (h : Tracks json topic stream log) :
    Tracks json topic stream.xgroupCreate log := by
  obtain ⟨hentries, hsome, hnone⟩ := RedisStream.xgroupCreate_spec stream
  exact {
    written := fun e he => h.written e (hentries ▸ he)
    stored := fun id hid => hentries ▸ h.stored id hid
    increasing := h.increasing
    kept := fun id => by rw [RedisStream.fate_xgroupCreate, h.kept]
    settled := fun id hid => by rw [RedisStream.fate_xgroupCreate, h.settled id hid]
    caused := h.caused
    order := fun g hg => by
      have hunread : stream.xgroupCreate.unread g = stream.unread g := by
        rw [RedisStream.unread, hentries, RedisStream.unread]
      rw [hunread]
      cases hold : stream.group with
      | none =>
          obtain ⟨hgroup, hnil⟩ := hnone hold
          obtain ⟨hkept, hreads⟩ := h.ungrouped hold
          obtain rfl := Option.some.inj (hg.symm.trans hgroup)
          rw [hnil, hkept, hreads]
          rfl
      | some g₀ =>
          obtain rfl := Option.some.inj (hg.symm.trans (hsome g₀ hold))
          exact h.order _ hold
    ungrouped := fun hg => by
      cases hold : stream.group with
      | none =>
          rw [(hnone hold).1] at hg
          cases hg
      | some g =>
          rw [hsome g hold] at hg
          cases hg }

theorem Tracks.xreadgroup {consumer : κ} {o : Option (ι × Text)}
    (h : Tracks json topic stream log) (hread : stream.xreadgroup consumer = (o, stream')) :
    Tracks json topic stream' (log.read o) := by
  cases o with
  | none =>
      obtain rfl := RedisStream.xreadgroup_eq_none hread
      exact h
  | some e =>
      obtain ⟨hunread, hfate⟩ := RedisStream.fate_xreadgroup hread
      obtain ⟨g, hg, -, hentries, -⟩ := RedisStream.xreadgroup_eq_some hread
      have hsome (id : ι) : (stream'.fate id).isSome = (stream.fate id).isSome := by
        rw [hfate]
        by_cases hid : id = e.1 <;> simp [hid, hunread]
      exact {
        written := fun e' he' => h.written e' (hentries ▸ he')
        stored := fun id hid => hentries ▸ h.stored id hid
        increasing := h.increasing
        kept := fun id => by rw [hsome]; exact h.kept id
        settled := fun id hid => by
          have hnone := h.settled id hid
          rw [← Option.not_isSome_iff_eq_none, hsome, hnone]
          simp
        caused := h.caused
        order := fun g' hg' => by
          obtain ⟨g₀, g₁, hg₀, hg₁, hfirst⟩ := RedisStream.unread_xreadgroup hread
          obtain rfl := Option.some.inj (hg'.symm.trans hg₁)
          have hold := h.order g₀ hg₀
          rw [hfirst] at hold
          simpa [Log.read] using hold
        ungrouped := fun hnone => by
          obtain ⟨-, g', -, hg', -⟩ := RedisStream.unread_xreadgroup hread
          rw [hg'] at hnone
          cases hnone }

/-- A change of the pending entries that leaves all of them where they are. -/
theorem Tracks.setPending (h : Tracks json topic stream log)
    (f : Pending ι κ → Option (Pending ι κ)) (hf : ∀ p p', f p = some p' → p'.id = p.id)
    (hfate : ∀ id, (stream.setPending f hf).fate id = stream.fate id) :
    Tracks json topic (stream.setPending f hf) log where
  written := h.written
  stored := h.stored
  increasing := h.increasing
  kept id := by rw [hfate, h.kept]
  settled id hid := by rw [hfate, h.settled id hid]
  caused := h.caused
  order g hg := by
    obtain ⟨g₀, hg₀, rfl⟩ := Option.map_eq_some_iff.1 hg
    exact h.order g₀ hg₀
  ungrouped hg := h.ungrouped (Option.map_eq_none_iff.1 hg)

theorem Tracks.settle (h : Tracks json topic stream log)
    (hid : id ∈ log.handled ∨ id ∈ log.asked) :
    Tracks json topic (stream.xack id) (log.settle stream id) := by
  have hfate := RedisStream.fate_xack (s := stream) id
  by_cases hpending : stream.fate id = some .pending
  · have hgone (id' : ι) : (stream.xack id).fate id' = if id' = id then none
        else stream.fate id' := by simp [hfate, hpending]
    rw [Log.settle, if_pos hpending]
    exact {
      written := h.written
      stored := h.stored
      increasing := h.increasing
      kept := fun id' => by
        rw [hgone, List.mem_append, List.mem_singleton]
        by_cases heq : id' = id
        · subst heq
          exact iff_of_true ((h.kept id').2 (.inl (by rw [hpending]; rfl))) (.inr (.inr rfl))
        · simp only [heq, if_false, or_false]
          exact h.kept id'
      settled := fun id' hid' => by
        rw [hgone]
        split_ifs with heq
        · rfl
        · rcases List.mem_append.1 hid' with hid' | hid'
          · exact h.settled id' hid'
          · exact absurd (List.mem_singleton.1 hid') heq
      caused := fun id' hid' => by
        rcases List.mem_append.1 hid' with hid' | hid'
        · exact h.caused id' hid'
        · exact List.mem_singleton.1 hid' ▸ hid
      order := fun g hg => by
        obtain ⟨g₀, hg₀, rfl⟩ := Option.map_eq_some_iff.1 hg
        exact h.order g₀ hg₀
      ungrouped := fun hg => h.ungrouped (Option.map_eq_none_iff.1 hg) }
  · rw [Log.settle, if_neg hpending]
    exact h.setPending _ _ (fun id' => by
      have hid' := hfate id'
      rwa [if_neg (fun hand => hpending hand.2)] at hid')

theorem Tracks.xautoclaim (h : Tracks json topic stream log) (consumer : κ)
    (min_idle_ms count : ℕ) (idle : ι → ℕ) :
    Tracks json topic (stream.xautoclaim consumer min_idle_ms count idle).2 log := by
  refine h.setPending _ ?_
    (RedisStream.fate_xautoclaim (s := stream) consumer min_idle_ms count idle)
  exact fun _ _ hp => Option.some.inj hp ▸ rfl

/-- Claiming hands out what is pending and has been idle long enough, when as many entries are asked
for as are pending. -/
theorem Tracks.mem_xautoclaim (h : Tracks json topic stream log) (consumer : κ)
    {min_idle_ms count : ℕ} {idle : ι → ℕ} (hcount : stream.pel.length ≤ count)
    (hidle : min_idle_ms ≤ idle id) (hid : stream.fate id = some .pending) :
    ∃ m : Message, m.topic = topic ∧ (id, Redis.toText json m) ∈ stream.entries ∧
      (id, Redis.toText json m) ∈ (stream.xautoclaim consumer min_idle_ms count idle).1 := by
  have hkept : id ∈ log.kept := (h.kept id).2 (.inl (by rw [hid]; rfl))
  obtain ⟨⟨_, text⟩, he, rfl⟩ := List.mem_map.1 (h.stored id hkept)
  obtain ⟨m, hm, rfl⟩ := h.written _ he
  refine ⟨m, hm, he, List.mem_filter.2 ⟨he, decide_eq_true ?_⟩⟩
  exact (RedisStream.mem_claimable_iff hcount).2 ⟨RedisStream.fate_eq_pending_iff.1 hid, hidle⟩

/-- Each log tracks its stream, and a subscriber acknowledges what its handler was done with. -/
structure Tracked (json : SerdeJson Text) (x : Delivery ι κ Text × History ι) : Prop where
  tracks : ∀ topic, Tracks json topic (x.1.streams.streams topic) (x.2 topic)
  acking : ∀ sub ∈ x.1.subscribers, ∀ id, sub.stage = .acking id → id ∈ (x.2 sub.topic).handled

variable {s s' : Delivery ι κ Text} {h h' : History ι} {i : ℕ}

theorem tracks_update {streams : State ι κ Text}
    (htracks : ∀ topic, Tracks json topic (streams.streams topic) (h topic))
    (hnew : Tracks json topic stream log) (topic' : String) :
    Tracks json topic' ((streams.setStream topic stream).streams topic')
      (Function.update h topic log topic') := by
  by_cases ht : topic' = topic
  · subst ht
    simpa [State.setStream] using hnew
  · simpa [State.setStream, ht] using htracks topic'

theorem tracks_setStream {streams : State ι κ Text}
    (htracks : ∀ topic, Tracks json topic (streams.streams topic) (h topic))
    (hnew : Tracks json topic stream (h topic)) (topic' : String) :
    Tracks json topic' ((streams.setStream topic stream).streams topic') (h topic') := by
  have hupdate := tracks_update htracks hnew topic'
  rwa [Function.update_eq_self] at hupdate

theorem tracks_log (htracks : ∀ topic, Tracks json topic (s.streams.streams topic) (h topic))
    (hnew : Tracks json topic (s.streams.streams topic) log) (topic' : String) :
    Tracks json topic' (s.streams.streams topic') (Function.update h topic log topic') := by
  by_cases ht : topic' = topic
  · subst ht
    simpa using hnew
  · simpa [ht] using htracks topic'

theorem turn_eq_some {f : Subscriber ι κ → Option (Stage ι × State ι κ Text)}
    (h : s.turn i f = some s') :
    ∃ sub stage streams, s.subscribers[i]? = some sub ∧ f sub = some (stage, streams) ∧
      s' = ⟨streams, s.subscribers.set i { sub with stage := stage }⟩ := by
  obtain ⟨sub, hsub, hf⟩ := Option.bind_eq_some_iff.1 h
  obtain ⟨r, hr, rfl⟩ := Option.map_eq_some_iff.1 hf
  exact ⟨sub, r.1, r.2, hsub, hr, rfl⟩

/-- The streams and the logs change, and no handler was done with less. -/
theorem Tracked.withStreams (hx : Tracked json (s, h)) {streams : State ι κ Text}
    (htracks : ∀ topic, Tracks json topic (streams.streams topic) (h' topic))
    (hhandled : ∀ topic, ∀ id ∈ (h topic).handled, id ∈ (h' topic).handled) :
    Tracked json (⟨streams, s.subscribers⟩, h') where
  tracks := htracks
  acking sub hmem id hid := hhandled _ id (hx.acking sub hmem id hid)

/-- A subscriber moves to a stage where it acknowledges what its handler was done with. -/
theorem Tracked.set (hx : Tracked json (s, h)) {sub' : Subscriber ι κ}
    {streams : State ι κ Text}
    (htracks : ∀ topic, Tracks json topic (streams.streams topic) (h' topic))
    (hhandled : ∀ topic, ∀ id ∈ (h topic).handled, id ∈ (h' topic).handled)
    (hstage : ∀ id, sub'.stage = .acking id → id ∈ (h' sub'.topic).handled) :
    Tracked json (⟨streams, s.subscribers.set i sub'⟩, h') where
  tracks := htracks
  acking sub₀ hmem id hid := by
    rcases List.mem_or_eq_of_mem_set hmem with hmem | rfl
    · exact hhandled _ id (hx.acking sub₀ hmem id hid)
    · exact hstage id hid

omit [LinearOrder ι] in
theorem handled_update (hlog : ∀ id ∈ (h topic).handled, id ∈ log.handled) (topic' : String) :
    ∀ id ∈ (h topic').handled, id ∈ (Function.update h topic log topic').handled := by
  by_cases ht : topic' = topic
  · subst ht
    simpa using hlog
  · simp [ht]

@[simp] theorem handled_keep : (log.keep stream id).handled = log.handled := by
  unfold Log.keep
  split_ifs <;> rfl

omit [LinearOrder ι] in
@[simp] theorem handled_read (e : Option (ι × Text)) : (log.read e).handled = log.handled := by
  cases e <;> rfl

@[simp] theorem handled_settle : (log.settle stream id).handled = log.handled := by
  unfold Log.settle
  split_ifs <;> rfl

theorem tracks_read {streams : State ι κ Text}
    (htracks : ∀ topic, Tracks json topic (streams.streams topic) (h topic)) (topic : String)
    (consumer : κ) : ∀ topic', Tracks json topic'
      ((Streams.read streams topic consumer).2.streams topic') (Function.update h topic
        ((h topic).read (Streams.read streams topic consumer).1) topic') :=
  tracks_update htracks ((htracks topic).xreadgroup rfl)

theorem streams_consume (streams : State ι κ Text) (topic : String) (consumer : κ) :
    (Streams.consume json refusal streams topic consumer).2.streams =
      (Streams.read (ensureGroup streams topic) topic consumer).2.streams := by
  unfold Streams.consume
  dsimp only
  split
  · rfl
  · split <;> rfl

omit [LinearOrder ι] in
theorem afterRead_ne_acking (reply : Option (ι × Text)) (id : ι) :
    afterRead json refusal reply ≠ .acking id := by
  unfold afterRead
  split
  · nofun
  · split <;> nofun

theorem Tracked.step {a : Label ι κ} (hx : Tracked json (s, h))
    (hstep : s.step json refusal a = some s') : Tracked json (s', note h s a s') := by
  cases a with
  | publish m id =>
      obtain ⟨streams, hpublish, rfl⟩ := Option.map_eq_some_iff.1 hstep
      obtain ⟨stream, hadd, rfl⟩ := Option.map_eq_some_iff.1 hpublish
      exact hx.withStreams (tracks_update hx.tracks ((hx.tracks m.topic).xadd rfl hadd))
        (handled_update (by simp))
  | consume topic consumer =>
      obtain rfl := Option.some.inj hstep
      refine hx.withStreams ?_ (handled_update (by simp))
      rw [streams_consume]
      exact tracks_read (tracks_setStream hx.tracks (hx.tracks topic).xgroupCreate) topic consumer
  | claimPending topic consumer min_idle_ms count idle =>
      obtain rfl := Option.some.inj hstep
      exact hx.withStreams (tracks_setStream hx.tracks ((hx.tracks topic).xautoclaim ..))
        (fun _ _ hid => hid)
  | ack id =>
      obtain rfl := Option.some.inj hstep
      simp only [note, Streams.ack]
      cases htopic : topicForId s.streams id with
      | none => exact hx
      | some topic =>
          have hasked : id ∈ ((h topic).ask id).asked := by simp [Log.ask]
          exact hx.withStreams
            (tracks_update hx.tracks (((hx.tracks topic).ask id).settle (.inr hasked)))
            (handled_update (by simp [Log.ask]))
  | subscribe topic consumer created =>
      obtain rfl := Option.some.inj hstep
      refine ⟨?_, fun sub hsub id hid => ?_⟩
      · cases created with
        | true => exact tracks_setStream hx.tracks (hx.tracks topic).xgroupCreate
        | false => exact hx.tracks
      · rcases List.mem_append.1 hsub with hsub | hsub
        · exact hx.acking sub hsub id hid
        · rw [List.mem_singleton.1 hsub] at hid
          cases hid
  | read i received =>
      obtain ⟨sub, stage, streams, hsub, hf, rfl⟩ := turn_eq_some hstep
      cases hstage : sub.stage with
      | reading =>
          rw [hstage] at hf
          cases hf
          simp only [note, hsub, Option.elim_some]
          refine hx.set (tracks_read hx.tracks sub.topic sub.consumer) (handled_update (by simp))
            (fun id hid => ?_)
          cases received with
          | true => exact absurd hid (afterRead_ne_acking _ id)
          | false => cases hid
      | _ =>
          rw [hstage] at hf
          cases hf
  | handled i ok =>
      obtain ⟨sub, stage, streams, hsub, hf, rfl⟩ := turn_eq_some hstep
      cases hstage : sub.stage with
      | handling m =>
          rw [hstage] at hf
          cases hf
          simp only [note, hsub, Option.elim_some, hstage]
          cases ok with
          | true =>
              refine hx.set (tracks_log hx.tracks ((hx.tracks sub.topic).handle m.id))
                (handled_update (fun id hid => List.mem_append_left _ hid)) (fun id hid => ?_)
              cases hid
              simp [Log.handle]
          | false => exact hx.set hx.tracks (fun _ _ hid => hid) nofun
      | _ =>
          rw [hstage] at hf
          cases hf
  | xack i sent =>
      obtain ⟨sub, stage, streams, hsub, hf, rfl⟩ := turn_eq_some hstep
      cases hstage : sub.stage with
      | acking id =>
          rw [hstage] at hf
          cases hf
          simp only [note, hsub, Option.elim_some, hstage]
          cases sent with
          | true =>
              have hid := hx.acking sub (List.mem_of_getElem? hsub) id hstage
              exact hx.set (tracks_update hx.tracks ((hx.tracks sub.topic).settle (.inl hid)))
                (handled_update (by simp)) nofun
          | false => exact hx.set hx.tracks (fun _ _ hid => hid) nofun
      | _ =>
          rw [hstage] at hf
          cases hf
  | hdel i sent =>
      obtain ⟨sub, stage, streams, hsub, hf, rfl⟩ := turn_eq_some hstep
      cases hstage : sub.stage with
      | clearing id =>
          rw [hstage] at hf
          cases hf
          refine hx.set (fun topic => ?_) (fun _ _ hid => hid) nofun
          cases sent <;> exact hx.tracks topic
      | _ =>
          rw [hstage] at hf
          cases hf
  | stop i =>
      obtain ⟨sub, stage, streams, hsub, hf, rfl⟩ := turn_eq_some hstep
      cases hf
      exact hx.set hx.tracks (fun _ _ hid => hid) nofun

theorem tracked_exec {as : List (Label ι κ)} {x : Delivery ι κ Text × History ι}
    (he : (observed json refusal).exec (observed json refusal).init as = some x) :
    Tracked json x := by
  refine (observed json refusal).exec_invariant (fun x a y hx hstep => ?_)
    ⟨fun _ => tracks_empty, fun _ h => by cases h⟩ he
  obtain ⟨s', hs, rfl⟩ := TransitionSystem.exists_of_observe_step hstep
  exact hx.step hs

/-- An entry that was published since the group of its topic exists is unread, pending or
acknowledged, and one of these only. None is acknowledged but by a subscriber whose handler was
done with it or by a client. A claim that asks for as many entries as are pending hands out again
those of them that have been idle long enough. -/
theorem delivers_at_least_once {as : List (Label ι κ)} {x : Delivery ι κ Text × History ι}
    (he : (observed json refusal).exec (observed json refusal).init as = some x) (topic : String) :
    (∀ id, id ∈ (x.2 topic).kept ↔ (x.1.streams.streams topic).fate id = some .unread ∨
      (x.1.streams.streams topic).fate id = some .pending ∨ id ∈ (x.2 topic).acked) ∧
    (∀ id ∈ (x.2 topic).acked, (x.1.streams.streams topic).fate id = none ∧
      (id ∈ (x.2 topic).handled ∨ id ∈ (x.2 topic).asked)) ∧
    ∀ consumer min_idle_ms count idle, (x.1.streams.pel topic).length ≤ count →
      ∀ id, (x.1.streams.streams topic).fate id = some .pending →
        ((∃ r ∈ (claimPending json refusal x.1.streams topic consumer min_idle_ms count idle).1,
          r.id = id ∧ r.topic = topic) ↔ min_idle_ms ≤ idle id) := by
  have hx := (tracked_exec he).tracks topic
  refine ⟨fun id => ?_, fun id hid => ⟨hx.settled id hid, hx.caused id hid⟩, ?_⟩
  · rw [hx.kept, ← or_assoc]
    refine or_congr_left ?_
    cases (x.1.streams.streams topic).fate id with
    | none => simp
    | some fate => cases fate <;> simp
  · intro consumer min_idle_ms count idle hcount id hid
    constructor
    · rintro ⟨r, hr, rfl, -⟩
      exact ((RedisStream.mem_claimable_iff hcount).1 (mem_claimable_of_mem_claimPending hr)).2
    · intro hidle
      obtain ⟨m, hm, -, hmem⟩ := hx.mem_xautoclaim consumer hcount hidle hid
      refine ⟨⟨m.topic, m.payload, m.headers, id⟩, List.mem_filterMap.2 ⟨_, hmem, ?_⟩, rfl, hm⟩
      simp [parseStreamEntry, Redis.fromText_toText, Except.toOption]

/-- `XREADGROUP` hands out the entries of a topic in the order in which they were published, each of
them once, whoever reads them. -/
theorem reads_in_order {as : List (Label ι κ)} {x : Delivery ι κ Text × History ι}
    (he : (observed json refusal).exec (observed json refusal).init as = some x) (topic : String) :
    (x.2 topic).reads <+: (x.2 topic).kept ∧ (x.2 topic).kept.Pairwise (· < ·) := by
  have hx := (tracked_exec he).tracks topic
  refine ⟨?_, hx.increasing⟩
  cases hg : (x.1.streams.streams topic).group with
  | none =>
      rw [(hx.ungrouped hg).2]
      exact List.nil_prefix
  | some g => exact ⟨_, hx.order g hg⟩

/-- The first message goes down with its subscriber and is claimed, the second is handled. -/
def recovery : List (Label ℕ String) :=
  [.subscribe "orders" "c" true, .publish ⟨"orders", "1", [], "a"⟩ 1,
    .publish ⟨"orders", "2", [], "b"⟩ 2, .read 0 true, .stop 0, .subscribe "orders" "d" true,
    .read 1 true, .handled 1 true, .xack 1 true, .hdel 1 true]

abbrev plain : TransitionSystem (Delivery ℕ String Json × History ℕ) (Label ℕ String) :=
  observed default (fun _ => "")

theorem exec_recovery : ∃ x, plain.exec plain.init recovery = some x ∧
    (x.2 "orders").kept = [1, 2] ∧ (x.2 "orders").acked = [2] ∧
    (x.1.streams.streams "orders").fate 1 = some .pending ∧
    (x.1.streams.pel "orders").length = 1 :=
  ⟨_, rfl, rfl, rfl, rfl, rfl⟩

theorem delivers_at_least_once_recovery : ∃ x, plain.exec plain.init recovery = some x ∧
    (x.1.streams.streams "orders").fate 2 = none ∧
    ∃ r ∈ (claimPending default (fun _ => "") x.1.streams "orders" "e" 60000 10
      (fun _ => 90000)).1, r.id = 1 ∧ r.topic = "orders" := by
  obtain ⟨x, he, -, hacked, hfate, hlength⟩ := exec_recovery
  obtain ⟨-, hsettled, hclaim⟩ := delivers_at_least_once he "orders"
  have hall : (x.1.streams.pel "orders").length ≤ 10 := by omega
  exact ⟨x, he, (hsettled 2 (by rw [hacked]; exact .head _)).1,
    (hclaim "e" 60000 10 (fun _ => 90000) hall 1 hfate).2 (by omega)⟩

theorem reads_in_order_recovery : ∃ x, plain.exec plain.init recovery = some x ∧
    (x.2 "orders").reads <+: [1, 2] := by
  obtain ⟨x, he, hkept, -⟩ := exec_recovery
  exact ⟨x, he, hkept ▸ (reads_in_order he "orders").1⟩

end Delivery
end Rszero.Queue.Streams
