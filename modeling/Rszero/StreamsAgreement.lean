import Mathlib.Data.List.Forall2
import Mathlib.Data.Nat.Basic
import Mathlib.Order.Nat
import Rszero.MemoryQueue
import Rszero.StreamsBackend
import Rszero.TransitionSystem

/-!
# Two backends of one client

The same pushes and pulls on `memory` and on `redis-streams`. The pulls return the same as long as
each topic is pulled from before it is pushed to: the first pull of a topic creates its group at the
end of the stream, so the group is never handed what was pushed before.
-/

namespace Rszero.Queue.Streams.Agreement

open Outbox (Message Uuid)

variable {ι κ Text : Type} [LinearOrder ι]

/-- Each of the backends has its own message made, and `id` is that of the entry. -/
inductive Op (ι : Type)
  | push (topic : String) (payload : Option String) (uuid uuid' : Uuid) (id : ι)
  | pull (topic : String)

structure Backends (ι κ Text : Type) [LinearOrder ι] where
  memory : Memory
  streams : State ι κ Text

variable (json : SerdeJson Text) (refusal : Text → String) (consumer : κ)

def push (s : State ι κ Text) (topic : String) (payload : Option String) (uuid : Uuid) (id : ι) :
    Option (State ι κ Text) :=
  match newMessage topic payload uuid with
  | some m => publish json s m id
  | none => some s

def system : TransitionSystem (Backends ι κ Text) (Op ι) where
  init := ⟨.new, .new⟩
  step s op := match op with
    | .push topic payload uuid uuid' id =>
        (push json s.streams topic payload uuid' id).map
          (fun streams => ⟨(MemoryQueue.Op.push topic payload uuid).apply s.memory, streams⟩)
    | .pull topic =>
        some ⟨(s.memory.consume topic).2, (consume json refusal s.streams topic consumer).2⟩

abbrev Pulled := Except RszeroError (Option (String × String))

def memoryPull (s : Memory) (topic : String) : Pulled :=
  (s.consume topic).1.map (Option.map (fun m => (m.topic, m.payload)))

def streamsPull (s : State ι κ Text) (topic : String) : Pulled :=
  (consume json refusal s topic consumer).1.map (Option.map (fun m => (m.topic, m.payload)))

structure Seen (ι : Type) where
  ops : List (Op ι)
  pulls : List (Pulled × Pulled)

def note (seen : Seen ι) (s : Backends ι κ Text) (op : Op ι) (_ : Backends ι κ Text) : Seen ι where
  ops := seen.ops ++ [op]
  pulls := match op with
    | .push .. => seen.pulls
    | .pull topic => seen.pulls ++
        [(memoryPull s.memory topic, streamsPull json refusal consumer s.streams topic)]

def observed : TransitionSystem (Backends ι κ Text × Seen ι) (Op ι) :=
  (system json refusal consumer).observe ⟨[], []⟩ (note json refusal consumer)

def Agree (x : Backends ι κ Text × Seen ι) : Prop := ∀ r ∈ x.2.pulls, r.1 = r.2

def Op.Pulls (topic : String) : Op ι → Prop
  | .pull topic' => topic' = topic
  | .push .. => False

/-- A push whose payload does not serialize adds nothing. -/
def Op.Pushes (topic : String) : Op ι → Prop
  | .push topic' (some _) .. => topic' = topic
  | _ => False

/-- The first pull of a topic comes before the pushes to it. -/
def PulledFirst (x : Backends ι κ Text × Seen ι) : Op ι → Prop
  | .pull topic => (∃ op ∈ x.2.ops, op.Pulls topic) ∨ ∀ op ∈ x.2.ops, ¬ op.Pushes topic
  | .push .. => True

/-- An entry has the text of a message that differs in the identifier only. -/
def Same (e : ι × Text) (m : Message) : Prop :=
  ∃ m' : Message, e.2 = Redis.toText json m' ∧ (m'.topic, m'.payload) = (m.topic, m.payload)

/-- A stream holds for its group what waits in memory. Before there is a group that is all of it. -/
structure Mirrors (ops : List (Op ι)) (topic : String) (ms : List Message)
    (stream : RedisStream ι κ Text) : Prop where
  grouped : stream.group ≠ none ↔ ∃ op ∈ ops, op.Pulls topic
  pushed : stream.entries ≠ [] ↔ ∃ op ∈ ops, op.Pushes topic
  all : stream.group = none → List.Forall₂ (Same json) stream.entries ms
  unread : ∀ g, stream.group = some g → List.Forall₂ (Same json) (stream.unread g) ms

variable {json refusal consumer} {ops : List (Op ι)} {topic : String} {ms : List Message}
  {stream stream' : RedisStream ι κ Text} {op : Op ι}

theorem mirrors_empty (topic : String) :
    Mirrors json ([] : List (Op ι)) topic [] (.empty : RedisStream ι κ Text) where
  grouped := by simp [RedisStream.empty]
  pushed := by simp [RedisStream.empty]
  all _ := .nil
  unread := nofun

/-- What is done on another topic changes nothing. -/
theorem Mirrors.other (h : Mirrors json ops topic ms stream) (hpull : ¬ op.Pulls topic)
    (hpush : ¬ op.Pushes topic) : Mirrors json (ops ++ [op]) topic ms stream where
  grouped := by simp [h.grouped, or_and_right, exists_or, hpull]
  pushed := by simp [h.pushed, or_and_right, exists_or, hpush]
  all := h.all
  unread := h.unread

omit [LinearOrder ι] in
theorem forall₂_append_same {es : List (ι × Text)} (h : List.Forall₂ (Same json) es ms) (id : ι)
    {m m' : Message} (hm : (m'.topic, m'.payload) = (m.topic, m.payload)) :
    List.Forall₂ (Same json) (es ++ [(id, Redis.toText json m')]) (ms ++ [m]) :=
  List.rel_append h (.cons ⟨m', rfl, hm⟩ .nil)

theorem Mirrors.push (h : Mirrors json ops topic ms stream) {m m' : Message} {id : ι}
    (hm : (m'.topic, m'.payload) = (m.topic, m.payload)) (hpull : ¬ op.Pulls topic)
    (hpush : op.Pushes topic) (hadd : stream.xadd id (Redis.toText json m') = some stream') :
    Mirrors json (ops ++ [op]) topic (ms ++ [m]) stream' := by
  obtain ⟨hentries, hgroup, hunread⟩ := RedisStream.xadd_eq_some hadd
  constructor
  · rw [hgroup, h.grouped]
    simp [or_and_right, exists_or, hpull]
  · rw [hentries]
    refine iff_of_true (by simp) ⟨op, by simp, hpush⟩
  · intro hnone
    rw [hentries]
    exact forall₂_append_same (h.all (hgroup ▸ hnone)) id hm
  · intro g hg
    rw [hgroup] at hg
    rw [hunread g hg]
    exact forall₂_append_same (h.unread g hg) id hm

/-- A topic that was pulled from or never pushed to has a group for what waits. -/
theorem Mirrors.created (h : Mirrors json ops topic ms stream)
    (hfirst : (∃ op ∈ ops, op.Pulls topic) ∨ ∀ op ∈ ops, ¬ op.Pushes topic) :
    ∃ g, stream.xgroupCreate.group = some g ∧
      List.Forall₂ (Same json) (stream.xgroupCreate.unread g) ms := by
  obtain ⟨hentries, hkept, hnew⟩ := stream.xgroupCreate_spec
  cases hgroup : stream.group with
  | some g =>
      refine ⟨g, hkept g hgroup, ?_⟩
      rw [RedisStream.unread, hentries]
      exact h.unread g hgroup
  | none =>
      obtain ⟨hcreated, hunread⟩ := hnew hgroup
      have hnever : ∀ op ∈ ops, ¬ op.Pushes topic := by
        apply hfirst.resolve_left
        rw [← h.grouped, hgroup]
        simp
      have hnil : stream.entries = [] := by
        by_contra hne
        obtain ⟨op, hop, hpush⟩ := h.pushed.1 hne
        exact hnever op hop hpush
      have hwaiting := h.all hgroup
      rw [hnil, List.forall₂_nil_left_iff] at hwaiting
      have hunread' : stream.xgroupCreate.unread ⟨stream.lastId, []⟩ = [] := by
        rw [RedisStream.unread, hentries]
        exact hunread
      exact ⟨_, hcreated, by rw [hunread', hwaiting]; exact .nil⟩

variable {s s' : State ι κ Text}

theorem publish_streams {m : Message} {id : ι} (h : publish json s m id = some s') :
    (s.streams m.topic).xadd id (Redis.toText json m) = some (s'.streams m.topic) ∧
      ∀ topic, topic ≠ m.topic → s'.streams topic = s.streams topic := by
  obtain ⟨stream, hadd, rfl⟩ := Option.map_eq_some_iff.1 h
  refine ⟨?_, fun topic ht => ?_⟩
  · simp [State.setStream, hadd]
  · exact Function.update_of_ne ht ..

variable (refusal) in
omit [LinearOrder ι] in
theorem parseStreamEntry_same {e : ι × Text} {m : Message} (h : Same json e m) :
    ∃ m', parseStreamEntry json refusal e = .ok m' ∧
      (m'.topic, m'.payload) = (m.topic, m.payload) := by
  obtain ⟨m', htext, hm⟩ := h
  refine ⟨⟨m'.topic, m'.payload, m'.headers, e.1⟩, ?_, hm⟩
  rw [parseStreamEntry, htext, Redis.fromText_toText]

/-- The streams of the other topics stay as they are. -/
theorem consume_streams_of_ne {topic' : String} (ht : topic' ≠ topic) :
    (consume json refusal s topic consumer).2.streams topic' = s.streams topic' := by
  have hread : (read (ensureGroup s topic) topic consumer).2.streams topic' =
      s.streams topic' := by
    simp [read, ensureGroup, State.setStream, ht]
  unfold consume
  dsimp only
  split
  · exact hread
  · split <;> exact hread

variable (refusal consumer) in
/-- The pull takes the first message that the group has not been handed. -/
theorem consume_of_unread {g : ConsumerGroup ι κ}
    (hg : (s.streams topic).xgroupCreate.group = some g)
    (h : List.Forall₂ (Same json) ((s.streams topic).xgroupCreate.unread g) ms) :
    streamsPull json refusal consumer s topic =
        .ok (ms.head?.map (fun m => (m.topic, m.payload))) ∧
      ((consume json refusal s topic consumer).2.streams topic).entries =
        (s.streams topic).entries ∧
      ∃ g', ((consume json refusal s topic consumer).2.streams topic).group = some g' ∧
        List.Forall₂ (Same json)
          (((consume json refusal s topic consumer).2.streams topic).unread g') ms.tail := by
  have hentries := (s.streams topic).xgroupCreate_spec.1
  cases hread : (s.streams topic).xgroupCreate.xreadgroup consumer with
  | mk o stream =>
      have hres : (read (ensureGroup s topic) topic consumer).1 = o := by
        simp [read, ensureGroup, State.setStream, hread]
      have hstream : (read (ensureGroup s topic) topic consumer).2.streams topic = stream := by
        simp [read, ensureGroup, State.setStream, hread]
      cases o with
      | none =>
          have hnone := RedisStream.xreadgroup_eq_none_iff.1 (congrArg Prod.fst hread)
          obtain rfl := RedisStream.xreadgroup_eq_none hread
          rw [hnone g hg, List.forall₂_nil_left_iff] at h
          subst h
          unfold streamsPull consume
          simp only [hres, hstream]
          exact ⟨rfl, hentries, g, hg, List.forall₂_nil_right_iff.2 (hnone g hg)⟩
      | some e =>
          obtain ⟨g₀, g', hg₀, hg', hunread⟩ := RedisStream.unread_xreadgroup hread
          obtain ⟨-, -, -, hsame, -⟩ := RedisStream.xreadgroup_eq_some hread
          obtain rfl := Option.some.inj (hg.symm.trans hg₀)
          rw [hunread, List.forall₂_cons_left_iff] at h
          obtain ⟨m, rest, hm, hrest, rfl⟩ := h
          obtain ⟨m', hparse, hcontent⟩ := parseStreamEntry_same refusal hm
          unfold streamsPull consume
          simp only [hres, hparse, State.hsetnx, hstream]
          refine ⟨?_, hsame.trans hentries, g', hg', hrest⟩
          change Except.ok (some (m'.topic, m'.payload)) = _
          rw [hcontent]
          rfl

theorem memoryPull_eq (s : Memory) (topic : String) : memoryPull s topic =
    .ok ((s.waiting topic).head?.map (fun m => (m.topic, m.payload))) := by
  rw [memoryPull, s.consume_result]
  rfl

variable {x y : Backends ι κ Text × Seen ι} {as : List (Op ι)}

/-- The pulls so far agree, and so will those of the topics that have been pulled from. -/
structure Alike (json : SerdeJson Text) (x : Backends ι κ Text × Seen ι) : Prop where
  agree : Agree x
  topics : ∀ topic,
    Mirrors json x.2.ops topic (x.1.memory.waiting topic) (x.1.streams.streams topic)

theorem alike_init :
    Alike json ((observed json refusal consumer).init : Backends ι κ Text × Seen ι) where
  agree _ hr := absurd hr List.not_mem_nil
  topics topic := mirrors_empty topic

/-- A push reaches both sides. -/
theorem alike_push {payload : Option String} {uuid uuid' : Uuid} {id : ι} (h : Alike json x)
    (hstep : (observed json refusal consumer).step x (.push topic payload uuid uuid' id) =
      some y) : Alike json y := by
  obtain ⟨hs, hseen⟩ := TransitionSystem.observe_step_eq_some.1 hstep
  obtain ⟨streams, hpush, hy⟩ := Option.map_eq_some_iff.1 hs
  refine ⟨fun r hr => ?_, fun topic' => ?_⟩
  · rw [hseen] at hr
    exact h.agree r hr
  · rw [hseen, ← hy]
    cases payload with
    | none =>
        obtain rfl := Option.some.inj hpush
        exact (h.topics topic').other (fun h => h) (fun h => h)
    | some text =>
        obtain ⟨hadd, hother⟩ := publish_streams hpush
        have hwaiting : ((MemoryQueue.Op.push topic (some text) uuid).apply
            x.1.memory).waiting = x.1.memory.waiting.enqueue topic _ :=
          x.1.memory.waiting_publish ⟨topic, text, [], uuid.text⟩
        rw [hwaiting]
        by_cases ht : topic' = topic
        · subst ht
          rw [FifoQueues.enqueue_self]
          exact (h.topics topic').push (Eq.refl (topic', text)) (fun h => h) rfl hadd
        · rw [FifoQueues.enqueue_of_ne _ _ ht, hother topic' ht]
          exact (h.topics topic').other (fun h => h) (fun h => ht h.symm)

/-- A pull whose topic has a group for what waits takes the same from both sides. -/
theorem alike_pull (h : Alike json x) (hfirst : PulledFirst x (.pull topic))
    (hstep : (observed json refusal consumer).step x (.pull topic) = some y) : Alike json y := by
  obtain ⟨hs, hseen⟩ := TransitionSystem.observe_step_eq_some.1 hstep
  have hy := Option.some.inj hs
  obtain ⟨g, hg, hunread⟩ := (h.topics topic).created hfirst
  obtain ⟨hpull, hentries, g', hg', hrest⟩ :=
    consume_of_unread refusal consumer hg hunread
  refine ⟨fun r hr => ?_, fun topic' => ?_⟩
  · rw [hseen] at hr
    rcases List.mem_append.1 hr with hr | hr
    · exact h.agree r hr
    · rw [List.mem_singleton.1 hr, hpull, memoryPull_eq]
  · rw [hseen, ← hy, x.1.memory.waiting_consume]
    by_cases ht : topic' = topic
    · subst ht
      rw [FifoQueues.dequeue_self]
      constructor
      · rw [hg']
        exact iff_of_true nofun ⟨.pull topic', by simp [note], rfl⟩
      · rw [hentries, (h.topics topic').pushed]
        simp [note, or_and_right, exists_or, Op.Pushes]
      · rw [hg']
        nofun
      · intro g₀ hg₀
        obtain rfl := Option.some.inj (hg'.symm.trans hg₀)
        exact hrest
    · rw [FifoQueues.dequeue_of_ne _ _ ht, consume_streams_of_ne ht]
      exact (h.topics topic').other (fun h => ht h.symm) (fun h => h)

/-- The first pull of a topic that something waits in finds nothing in the stream. -/
theorem not_agree_of_not_pulledFirst (h : Alike json x) (hfirst : ¬ PulledFirst x op)
    (hstep : (observed json refusal consumer).step x op = some y) : ¬ Agree y := by
  cases op with
  | push topic payload uuid uuid' id => exact absurd trivial hfirst
  | pull topic =>
      obtain ⟨-, hseen⟩ := TransitionSystem.observe_step_eq_some.1 hstep
      obtain ⟨hpulls, hpushes⟩ := not_or.1 hfirst
      have hgroup : (x.1.streams.streams topic).group = none := by
        by_contra hne
        exact hpulls ((h.topics topic).grouped.1 hne)
      obtain ⟨hcreated, hunread⟩ := (RedisStream.xgroupCreate_spec _).2.2 hgroup
      have hnil : List.Forall₂ (Same json) ((x.1.streams.streams topic).xgroupCreate.unread
          ⟨(x.1.streams.streams topic).lastId, []⟩) [] := by
        rw [RedisStream.unread, (RedisStream.xgroupCreate_spec _).1]
        exact List.forall₂_nil_right_iff.2 hunread
      have hpull := (consume_of_unread refusal consumer hcreated hnil).1
      have hne : (x.1.streams.streams topic).entries ≠ [] := by
        rw [(h.topics topic).pushed]
        push Not at hpushes
        exact hpushes
      have hall := (h.topics topic).all hgroup
      intro hagree
      have hsame := hagree (memoryPull x.1.memory topic,
        streamsPull json refusal consumer x.1.streams topic) (by simp [hseen, note])
      rw [hpull, memoryPull_eq] at hsame
      cases hwaiting : x.1.memory.waiting topic with
      | nil =>
          rw [hwaiting, List.forall₂_nil_right_iff] at hall
          exact hne hall
      | cons m ms =>
          rw [hwaiting] at hsame
          cases hsame

/-- The backends agree pull by pull if and only if each topic is pulled from before it is pushed
to. -/
theorem streams_agree_iff
    (he : (observed json refusal consumer).exec (observed json refusal consumer).init as = some y) :
    (observed json refusal consumer).Throughout Agree (observed json refusal consumer).init as ↔
      (observed json refusal consumer).Along PulledFirst (observed json refusal consumer).init
        as := by
  refine TransitionSystem.throughout_iff_along (I := Alike json) (fun _ h => h.agree) ?_
    (fun _ _ _ => not_agree_of_not_pulledFirst) alike_init he
  intro x op y h hfirst hstep
  cases op with
  | push topic payload uuid uuid' id => exact alike_push h hstep
  | pull topic => exact alike_pull h hfirst hstep

abbrev plain : TransitionSystem (Backends ℕ String Json × Seen ℕ) (Op ℕ) :=
  observed (default : SerdeJson Json) (fun _ => "") "c"

def memoryId : Uuid := ⟨"00000000-0000-4000-8000-00000000000d", rfl⟩

def streamsId : Uuid := ⟨"00000000-0000-4000-8000-00000000000e", rfl⟩

def pulledFirst : List (Op ℕ) :=
  [.pull "orders", .push "orders" (some "a") memoryId streamsId 1, .pull "orders", .pull "orders"]

def pushedFirst : List (Op ℕ) :=
  [.push "orders" (some "a") memoryId streamsId 1, .pull "orders"]

theorem streams_agree_iff_pulledFirst : ∃ y, plain.exec plain.init pulledFirst = some y ∧
    (plain.Throughout Agree plain.init pulledFirst ↔
      plain.Along PulledFirst plain.init pulledFirst) :=
  ⟨_, rfl, streams_agree_iff rfl⟩

/-- The message that was pushed is pulled from memory, and from the stream it is not. -/
theorem pushedFirst_not_agree : ∃ y, plain.exec plain.init pushedFirst = some y ∧
    y.2.pulls = [(.ok (some ("orders", "a")), .ok none)] ∧ ¬ Agree y := by
  refine ⟨_, rfl, rfl, fun h => ?_⟩
  cases h _ (.head _)

end Rszero.Queue.Streams.Agreement
