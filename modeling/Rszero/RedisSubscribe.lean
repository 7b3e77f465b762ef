import Rszero.Completion
import Rszero.QueueBackend
import Rszero.Simulation
import Rszero.WorkQueue

/-!
# Subscribers of Redis lists

The loop of `subscribe` pops a text from the list of its topic, hands the message to the handler,
and pushes it again when the handler fails. Between the pop and the end of the handler the message
is in the task alone: it goes down with the task, with a pop whose reply is lost, and with a push
that fails. Any number of subscribers, of publishers and of clients that pull take steps in any
order.
-/

namespace Rszero.Queue.Redis

open Outbox (Message)

variable {Text : Type} (json : SerdeJson Text) (refusal : Text → String)

/-- A value in an array that Redis replies: the key of the list, a text, or anything else. -/
inductive Element (Text : Type)
  | key (key : String)
  | string (text : Text)
  | other

inductive Reply (Text : Type)
  | null
  | array (values : List (Element Text))
  | other

def brpop (s : Redis Text) (key : String) : Reply Text × Redis Text :=
  match (s.lists key).getLast? with
  | none => (.null, s)
  | some text =>
      (.array [.key key, .string text], ⟨Function.update s.lists key (s.lists key).dropLast⟩)

def received : Reply Text → Option Message
  | .array values =>
      if 2 ≤ values.length then
        match (values[1]? : Option (Element Text)) with
        | some (.string text) => fromText json text
        | _ => none
      else none
  | _ => none

def lpush (s : Redis Text) (key : String) (text : Text) : Redis Text :=
  ⟨Function.update s.lists key (text :: s.lists key)⟩

/-- The point that the loop has reached; `stopped` is a task that has ended. -/
inductive Stage
  | polling
  | handling (m : Message)
  | requeueing (m : Message)
  | stopped

structure Subscriber where
  topic : String
  stage : Stage

/-- The message that is in the task alone. -/
def Subscriber.holds (sub : Subscriber) : Option (String × Message) :=
  match sub.stage with
  | .handling m | .requeueing m => some (sub.topic, m)
  | .polling | .stopped => none

def Stage.polled : Option Message → Stage
  | some m => .handling m
  | none => .polling

structure Subscriptions (Text : Type) where
  redis : Redis Text
  subscribers : List Subscriber

namespace Subscriptions

/-- A subscriber stops when its task ends: with the process, or with a handler that panics. Of a
pop that fails, a client's or a subscriber's, the reply may be lost after Redis has taken the text
off the list. -/
inductive Label
  | publish (m : Message)
  | pull (topic : String)
  | pullLost (topic : String)
  | subscribe (topic : String)
  | brpop (i : ℕ)
  | brpopLost (i : ℕ)
  | handled (i : ℕ) (ok : Bool)
  | requeued (i : ℕ) (pushed : Bool)
  | stop (i : ℕ)

def new : Subscriptions Text := ⟨⟨fun _ => []⟩, []⟩

def turn (s : Subscriptions Text) (i : ℕ) (f : Subscriber → Option (Stage × Redis Text)) :
    Option (Subscriptions Text) :=
  (s.subscribers[i]?).bind fun sub =>
    (f sub).map fun r => ⟨r.2, s.subscribers.set i { sub with stage := r.1 }⟩

def step (s : Subscriptions Text) : Label → Option (Subscriptions Text)
  | .publish m => some { s with redis := s.redis.publish json m }
  | .pull topic | .pullLost topic =>
      some { s with redis := (s.redis.consume json refusal topic).2 }
  | .subscribe topic => some { s with subscribers := s.subscribers ++ [⟨topic, .polling⟩] }
  | .brpop i => s.turn i fun sub =>
      match sub.stage with
      | .polling =>
          let r := s.redis.brpop (queueKey sub.topic)
          match received json r.1 with
          | some m => some (.handling m, r.2)
          | none => some (.polling, r.2)
      | _ => none
  | .brpopLost i => s.turn i fun sub =>
      match sub.stage with
      | .polling => some (.polling, (s.redis.brpop (queueKey sub.topic)).2)
      | _ => none
  | .handled i ok => s.turn i fun sub =>
      match sub.stage with
      | .handling m => some (if ok then .polling else .requeueing m, s.redis)
      | _ => none
  | .requeued i pushed => s.turn i fun sub =>
      match sub.stage with
      | .requeueing m =>
          some (.polling,
            if pushed then s.redis.lpush (queueKey sub.topic) (toText json m) else s.redis)
      | _ => none
  | .stop i => s.turn i fun _ => some (.stopped, s.redis)

def system : TransitionSystem (Subscriptions Text) Label := ⟨new, step json refusal⟩

def holds (s : Subscriptions Text) (i : ℕ) : Option (String × Message) :=
  (s.subscribers[i]?).bind Subscriber.holds

def offered (s : Subscriptions Text) (i : ℕ) : Option (String × Message) :=
  (s.subscribers[i]?).bind fun sub =>
    ((s.redis.waiting json sub.topic).head?).map fun m => (sub.topic, m)

def note (log : WorkLog String Message) (s : Subscriptions Text) (a : Label)
    (s' : Subscriptions Text) : WorkLog String Message :=
  match a with
  | .publish m => log.publish m.topic m
  | .pull topic =>
      match (s.redis.consume json refusal topic).1 with
      | .ok (some m) => (log.take topic m).finish topic m
      | _ => log
  | .pullLost topic =>
      match (s.redis.consume json refusal topic).1 with
      | .ok (some m) => (log.take topic m).lose topic m
      | _ => log
  | .subscribe _ => log
  | .brpop i => (s'.holds i).elim log fun e => log.take e.1 e.2
  | .brpopLost i => (s.offered json i).elim log fun e => (log.take e.1 e.2).lose e.1 e.2
  | .handled i ok => if ok then (s.holds i).elim log fun e => log.finish e.1 e.2 else log
  | .requeued i pushed => (s.holds i).elim log fun e =>
      if pushed then log.giveBack e.1 e.2 else log.lose e.1 e.2
  | .stop i => (s.holds i).elim log fun e => log.lose e.1 e.2

def observed : TransitionSystem (Subscriptions Text × WorkLog String Message) Label :=
  (system json refusal).observe .empty (note json refusal)

def view (x : Subscriptions Text × WorkLog String Message) : WorkQueue String Message :=
  ⟨x.1.redis.waiting json, x.1.subscribers.map Subscriber.holds, x.2⟩

def steps (s : Subscriptions Text) (a : Label) : List (WorkQueue.Label String Message) :=
  match a with
  | .publish m => [.publish m.topic m]
  | .pull topic => ((s.redis.waiting json topic).head?).elim [] fun _ => [.serve topic]
  | .pullLost topic => ((s.redis.waiting json topic).head?).elim [] fun _ => [.discard topic]
  | .subscribe _ => [.hire]
  | .brpop i => (s.offered json i).elim [] fun e => [.take i e.1]
  | .brpopLost i => (s.offered json i).elim [] fun e => [.take i e.1, .lose i]
  | .handled i ok => if ok then [.finish i] else []
  | .requeued i pushed =>
      if pushed then
        [.giveBack i ((s.holds i).elim 0 fun e => (s.redis.waiting json e.1).length)]
      else [.lose i]
  | .stop i => (s.holds i).elim [] fun _ => [.lose i]

/-- Lists have texts of messages, each in the list of its topic, and so have the subscribers. -/
structure Filed (s : Subscriptions Text) : Prop where
  valid : s.redis.Valid json
  waiting : ∀ topic, ∀ m ∈ s.redis.waiting json topic, m.topic = topic
  held : ∀ sub ∈ s.subscribers, ∀ e, sub.holds = some e → e.2.topic = e.1

variable {json refusal}

/-- What `BRPOP` takes is what waits first. -/
theorem brpop_spec {s : Redis Text} (h : s.Valid json) (topic : String) :
    received json (s.brpop (queueKey topic)).1 = (s.waiting json topic).head? ∧
      (s.brpop (queueKey topic)).2.Valid json ∧
      (s.brpop (queueKey topic)).2.waiting json = (s.waiting json).dequeue topic := by
  unfold brpop
  rcases lists_eq h topic with ⟨hlist, hwaiting⟩ | ⟨rest, m, hlist, hwaiting⟩
  · have hhead : (s.waiting json topic).head? = none := by rw [hwaiting, List.head?_nil]
    rw [hlist, hwaiting]
    exact ⟨rfl, h, (FifoQueues.dequeue_of_head?_eq_none _ _ hhead).symm⟩
  · have hlast : (s.lists (queueKey topic)).getLast? = some (toText json m) := by simp [hlist]
    rw [hlast, hwaiting]
    refine ⟨?_, valid_pop h _, waiting_pop h topic⟩
    simp [received, fromText_toText]

theorem lpush_eq_publish (s : Redis Text) {m : Message} {topic : String} (hm : m.topic = topic) :
    s.lpush (queueKey topic) (toText json m) = s.publish json m := by
  subst hm
  rfl

variable {s s' : Subscriptions Text} {i : ℕ}

theorem turn_eq_some {f : Subscriber → Option (Stage × Redis Text)} (h : s.turn i f = some s') :
    ∃ sub stage redis, s.subscribers[i]? = some sub ∧ f sub = some (stage, redis) ∧
      s' = ⟨redis, s.subscribers.set i { sub with stage := stage }⟩ := by
  obtain ⟨sub, hsub, hf⟩ := Option.bind_eq_some_iff.1 h
  obtain ⟨r, hr, rfl⟩ := Option.map_eq_some_iff.1 hf
  exact ⟨sub, r.1, r.2, hsub, hr, rfl⟩

theorem brpop_eq_some (hs : s.Filed json) (h : s.step json refusal (.brpop i) = some s') :
    ∃ sub, s.subscribers[i]? = some sub ∧ sub.stage = .polling ∧
      s' = ⟨(s.redis.brpop (queueKey sub.topic)).2, s.subscribers.set i
        { sub with stage := .polled (s.redis.waiting json sub.topic).head? }⟩ := by
  obtain ⟨sub, stage, redis, hsub, hf, rfl⟩ := turn_eq_some h
  refine ⟨sub, hsub, ?_⟩
  cases hstage : sub.stage with
  | polling =>
      simp only [hstage, (brpop_spec hs.valid sub.topic).1] at hf
      cases hhead : (s.redis.waiting json sub.topic).head? with
      | none =>
          rw [hhead] at hf
          cases hf
          exact ⟨rfl, rfl⟩
      | some m =>
          rw [hhead] at hf
          cases hf
          exact ⟨rfl, rfl⟩
  | _ =>
      rw [hstage] at hf
      cases hf

theorem brpopLost_eq_some (h : s.step json refusal (.brpopLost i) = some s') :
    ∃ sub, s.subscribers[i]? = some sub ∧ sub.stage = .polling ∧
      s' = ⟨(s.redis.brpop (queueKey sub.topic)).2, s.subscribers.set i sub⟩ := by
  obtain ⟨sub, stage, redis, hsub, hf, rfl⟩ := turn_eq_some h
  refine ⟨sub, hsub, ?_⟩
  cases hstage : sub.stage with
  | polling =>
      rw [hstage] at hf
      cases hf
      exact ⟨rfl, by rw [← hstage]⟩
  | _ =>
      rw [hstage] at hf
      cases hf

theorem handled_eq_some {ok : Bool} (h : s.step json refusal (.handled i ok) = some s') :
    ∃ sub m, s.subscribers[i]? = some sub ∧ sub.stage = .handling m ∧
      s' = ⟨s.redis, s.subscribers.set i
        { sub with stage := if ok then .polling else .requeueing m }⟩ := by
  obtain ⟨sub, stage, redis, hsub, hf, rfl⟩ := turn_eq_some h
  cases hstage : sub.stage with
  | handling m =>
      rw [hstage] at hf
      cases hf
      exact ⟨sub, m, hsub, hstage, rfl⟩
  | _ =>
      rw [hstage] at hf
      cases hf

theorem requeued_eq_some {pushed : Bool} (h : s.step json refusal (.requeued i pushed) = some s') :
    ∃ sub m, s.subscribers[i]? = some sub ∧ sub.stage = .requeueing m ∧
      s' = ⟨if pushed then s.redis.lpush (queueKey sub.topic) (toText json m) else s.redis,
        s.subscribers.set i { sub with stage := .polling }⟩ := by
  obtain ⟨sub, stage, redis, hsub, hf, rfl⟩ := turn_eq_some h
  cases hstage : sub.stage with
  | requeueing m =>
      rw [hstage] at hf
      cases hf
      exact ⟨sub, m, hsub, hstage, rfl⟩
  | _ =>
      rw [hstage] at hf
      cases hf

theorem stop_eq_some (h : s.step json refusal (.stop i) = some s') :
    ∃ sub, s.subscribers[i]? = some sub ∧
      s' = ⟨s.redis, s.subscribers.set i { sub with stage := .stopped }⟩ := by
  obtain ⟨sub, stage, redis, hsub, hf, rfl⟩ := turn_eq_some h
  cases hf
  exact ⟨sub, hsub, rfl⟩

/-- What a step of a subscriber keeps, when it leaves a message where it is filed. -/
theorem Filed.set (h : s.Filed json) {redis : Redis Text} {sub' : Subscriber}
    (hvalid : redis.Valid json)
    (hwaiting : ∀ topic, ∀ m ∈ redis.waiting json topic, m.topic = topic)
    (hsub' : ∀ e, sub'.holds = some e → e.2.topic = e.1) :
    Filed json ⟨redis, s.subscribers.set i sub'⟩ where
  valid := hvalid
  waiting := hwaiting
  held sub₀ hmem e he := by
    rcases List.mem_or_eq_of_mem_set hmem with hmem | rfl
    · exact h.held sub₀ hmem e he
    · exact hsub' e he

theorem filed_new : (new : Subscriptions Text).Filed json where
  valid _ _ h := by cases h
  waiting _ _ h := by cases h
  held _ h := by cases h

theorem Filed.dequeue (h : s.Filed json) (topic topic' : String) :
    ∀ m ∈ (s.redis.waiting json).dequeue topic topic', m.topic = topic' :=
  fun m hm => h.waiting topic' m (FifoQueues.mem_of_mem_dequeue _ _ hm)

theorem Filed.publish (h : s.Filed json) (m : Message) (topic : String) :
    ∀ m' ∈ (s.redis.publish json m).waiting json topic, m'.topic = topic := by
  intro m' hm'
  rw [waiting_publish] at hm'
  rcases FifoQueues.mem_enqueue _ _ hm' with hm' | ⟨rfl, rfl⟩
  · exact h.waiting topic m' hm'
  · rfl

theorem Filed.step {a : Label} (h : s.Filed json) (hstep : s.step json refusal a = some s') :
    s'.Filed json := by
  cases a with
  | publish m =>
      obtain rfl := Option.some.inj hstep
      exact ⟨valid_publish h.valid m, h.publish m, h.held⟩
  | pull topic | pullLost topic =>
      obtain rfl := Option.some.inj hstep
      rw [consume_eq refusal h.valid]
      refine ⟨valid_pop h.valid _, ?_, h.held⟩
      rw [waiting_pop h.valid]
      exact h.dequeue topic
  | subscribe topic =>
      obtain rfl := Option.some.inj hstep
      refine ⟨h.valid, h.waiting, fun sub hsub e he => ?_⟩
      rcases List.mem_append.1 hsub with hsub | hsub
      · exact h.held sub hsub e he
      · rw [List.mem_singleton.1 hsub] at he
        cases he
  | brpop i =>
      obtain ⟨sub, hsub, -, rfl⟩ := brpop_eq_some h hstep
      obtain ⟨-, hvalid, hwaiting⟩ := brpop_spec h.valid sub.topic
      refine h.set hvalid (hwaiting ▸ h.dequeue sub.topic) (fun e he => ?_)
      cases hhead : (s.redis.waiting json sub.topic).head? with
      | none =>
          rw [hhead] at he
          cases he
      | some m =>
          rw [hhead] at he
          cases he
          exact h.waiting sub.topic m (List.mem_of_head? hhead)
  | brpopLost i =>
      obtain ⟨sub, hsub, hstage, rfl⟩ := brpopLost_eq_some hstep
      obtain ⟨-, hvalid, hwaiting⟩ := brpop_spec h.valid sub.topic
      exact h.set hvalid (hwaiting ▸ h.dequeue sub.topic)
        (h.held sub (List.mem_of_getElem? hsub))
  | handled i ok =>
      obtain ⟨sub, m, hsub, hstage, rfl⟩ := handled_eq_some hstep
      refine h.set h.valid h.waiting (fun e he => ?_)
      cases ok with
      | true => cases he
      | false =>
          refine h.held sub (List.mem_of_getElem? hsub) e ?_
          rw [← he, Subscriber.holds, Subscriber.holds, hstage]
          rfl
  | requeued i pushed =>
      obtain ⟨sub, m, hsub, hstage, rfl⟩ := requeued_eq_some hstep
      have hm : m.topic = sub.topic := h.held sub (List.mem_of_getElem? hsub) (sub.topic, m)
        (by rw [Subscriber.holds, hstage])
      cases pushed with
      | false => exact h.set h.valid h.waiting nofun
      | true =>
          rw [if_pos rfl, lpush_eq_publish s.redis hm]
          exact h.set (valid_publish h.valid m) (h.publish m) nofun
  | stop i =>
      obtain ⟨sub, hsub, rfl⟩ := stop_eq_some hstep
      exact h.set h.valid h.waiting nofun

variable {log : WorkLog String Message} {sub : Subscriber}

theorem holds_eq (hsub : s.subscribers[i]? = some sub) : s.holds i = sub.holds := by
  rw [holds, hsub, Option.bind_some]

theorem offered_eq (hsub : s.subscribers[i]? = some sub) : s.offered json i =
    ((s.redis.waiting json sub.topic).head?).map (fun m => (sub.topic, m)) := by
  rw [offered, hsub, Option.bind_some]

variable (json log) in
theorem held_view (hsub : s.subscribers[i]? = some sub) :
    (view json (s, log)).held[i]? = some sub.holds := by
  simp [view, hsub]

theorem holds_set (hsub : s.subscribers[i]? = some sub) (redis : Redis Text) (sub' : Subscriber) :
    holds ⟨redis, s.subscribers.set i sub'⟩ i = sub'.holds := by
  obtain ⟨hi, -⟩ := List.getElem?_eq_some_iff.1 hsub
  simp [holds, hi]

/-- Replacing a subscriber by one that holds the same message is not seen. -/
theorem view_set (hsub : s.subscribers[i]? = some sub) {sub' : Subscriber}
    (hholds : sub'.holds = sub.holds) (redis : Redis Text) :
    view json (⟨redis, s.subscribers.set i sub'⟩, log) =
      ⟨redis.waiting json, s.subscribers.map Subscriber.holds, log⟩ := by
  rw [view, TransitionSystem.map_set_eq Subscriber.holds hsub hholds]

theorem view_step {a : Label} (hs : s.Filed json) (h : s.step json refusal a = some s') :
    WorkQueue.system.exec (view json (s, log)) (s.steps json a) =
      some (view json (s', note json refusal log s a s')) := by
  cases a with
  | publish m =>
      obtain rfl := Option.some.inj h
      rw [steps, WorkQueue.exec_singleton, WorkQueue.step, view, view, waiting_publish]
      rfl
  | pull topic =>
      obtain rfl := Option.some.inj h
      simp only [steps, note, consume_eq refusal hs.valid]
      rw [view, view, waiting_pop hs.valid]
      cases hhead : (s.redis.waiting json topic).head? with
      | none =>
          rw [FifoQueues.dequeue_of_head?_eq_none _ _ hhead]
          rfl
      | some m =>
          rw [Option.elim_some, WorkQueue.exec_singleton, WorkQueue.step_serve hhead]
  | pullLost topic =>
      obtain rfl := Option.some.inj h
      simp only [steps, note, consume_eq refusal hs.valid]
      rw [view, view, waiting_pop hs.valid]
      cases hhead : (s.redis.waiting json topic).head? with
      | none =>
          rw [FifoQueues.dequeue_of_head?_eq_none _ _ hhead]
          rfl
      | some m =>
          rw [Option.elim_some, WorkQueue.exec_singleton, WorkQueue.step_discard hhead]
  | subscribe topic =>
      obtain rfl := Option.some.inj h
      rw [steps, WorkQueue.exec_singleton, WorkQueue.step, view, view, List.map_append]
      rfl
  | brpop i =>
      obtain ⟨sub, hsub, hstage, rfl⟩ := brpop_eq_some hs h
      obtain ⟨-, -, hwaiting⟩ := brpop_spec hs.valid sub.topic
      have hheld := held_view json log hsub
      rw [Subscriber.holds, hstage] at hheld
      rw [steps, note, offered_eq hsub, holds_set hsub]
      cases hhead : (s.redis.waiting json sub.topic).head? with
      | none =>
          rw [view_set hsub (by rw [Subscriber.holds, Subscriber.holds, hstage]; rfl), hwaiting,
            FifoQueues.dequeue_of_head?_eq_none _ _ hhead]
          rfl
      | some m =>
          rw [Option.map_some, Option.elim_some, WorkQueue.exec_singleton,
            WorkQueue.step_take hheld hhead]
          simp only [view, hwaiting, List.map_set]
          rfl
  | brpopLost i =>
      obtain ⟨sub, hsub, hstage, rfl⟩ := brpopLost_eq_some h
      obtain ⟨-, -, hwaiting⟩ := brpop_spec hs.valid sub.topic
      have hnone : sub.holds = none := by rw [Subscriber.holds, hstage]
      have hheld := held_view json log hsub
      rw [hnone] at hheld
      rw [steps, note, offered_eq hsub, view_set hsub rfl, hwaiting]
      cases hhead : (s.redis.waiting json sub.topic).head? with
      | none =>
          rw [FifoQueues.dequeue_of_head?_eq_none _ _ hhead]
          rfl
      | some m =>
          obtain ⟨hi, hget⟩ := List.getElem?_eq_some_iff.1 hheld
          rw [Option.map_some, Option.elim_some, TransitionSystem.exec_cons_eq_some]
          refine ⟨_, WorkQueue.step_take hheld hhead, ?_⟩
          rw [WorkQueue.exec_singleton, WorkQueue.step_lose (List.getElem?_set_self hi),
            List.set_set, ← hget, List.set_getElem_self]
          rfl
  | handled i ok =>
      obtain ⟨sub, m, hsub, hstage, rfl⟩ := handled_eq_some h
      have hholds : sub.holds = some (sub.topic, m) := by rw [Subscriber.holds, hstage]
      have hheld := held_view json log hsub
      rw [hholds] at hheld
      cases ok with
      | true =>
          rw [steps, if_pos rfl, WorkQueue.exec_singleton, WorkQueue.step_finish hheld, note,
            if_pos rfl, holds_eq hsub, hholds, view, view, List.map_set]
          rfl
      | false =>
          rw [steps, note, view_set hsub (by rw [hholds]; rfl)]
          rfl
  | requeued i pushed =>
      obtain ⟨sub, m, hsub, hstage, rfl⟩ := requeued_eq_some h
      have hholds : sub.holds = some (sub.topic, m) := by rw [Subscriber.holds, hstage]
      have hheld := held_view json log hsub
      rw [hholds] at hheld
      cases pushed with
      | true =>
          have hm : m.topic = sub.topic :=
            hs.held sub (List.mem_of_getElem? hsub) (sub.topic, m) hholds
          rw [steps, if_pos rfl, note, holds_eq hsub, hholds, Option.elim_some,
            WorkQueue.exec_singleton, WorkQueue.step_giveBack hheld, view, view, List.map_set,
            if_pos rfl, lpush_eq_publish s.redis hm, waiting_publish, hm,
            ← FifoQueues.insert_length]
          rfl
      | false =>
          rw [steps, if_neg Bool.false_ne_true, note, holds_eq hsub, hholds,
            WorkQueue.exec_singleton, WorkQueue.step_lose hheld, view, view, List.map_set]
          rfl
  | stop i =>
      obtain ⟨sub, hsub, rfl⟩ := stop_eq_some h
      have hheld := held_view json log hsub
      rw [steps, note, holds_eq hsub]
      cases hholds : sub.holds with
      | none =>
          rw [view_set hsub (by rw [hholds]; rfl)]
          rfl
      | some e =>
          rw [hholds] at hheld
          rw [Option.elim_some, WorkQueue.exec_singleton, WorkQueue.step_lose hheld, view, view,
            List.map_set]
          rfl

variable (json refusal)

def simulation : Simulation (observed json refusal)
    (WorkQueue.system : TransitionSystem (WorkQueue String Message) _) where
  Inv x := x.1.Filed json
  view := view json
  steps x a := x.1.steps json a
  inv_init := filed_new
  inv_step x a y hx h := by
    obtain ⟨s', hs, rfl⟩ := TransitionSystem.exists_of_observe_step h
    exact hx.step hs
  view_init := rfl
  view_step x a y hx h := by
    obtain ⟨s', hs, rfl⟩ := TransitionSystem.exists_of_observe_step h
    exact view_step hx hs

variable {json refusal}

/-- The steps that leave no message behind. -/
def Spares (json : SerdeJson Text) (x : Subscriptions Text × WorkLog String Message) :
    Label → Prop
  | .pullLost topic => x.1.redis.waiting json topic = []
  | .brpopLost i => x.1.offered json i = none
  | .requeued _ pushed => pushed
  | .stop i => x.1.holds i = none
  | _ => True

variable (json) in
theorem spares_iff (x : Subscriptions Text × WorkLog String Message) (a : Label) :
    (∀ b ∈ x.1.steps json a, ¬ b.Loses) ↔ Spares json x a := by
  cases a with
  | publish m => simp [steps, Spares, WorkQueue.Label.Loses]
  | pull topic =>
      cases h : (x.1.redis.waiting json topic).head? <;>
        simp [steps, Spares, h, WorkQueue.Label.Loses]
  | pullLost topic =>
      cases h : x.1.redis.waiting json topic <;> simp [steps, Spares, h, WorkQueue.Label.Loses]
  | subscribe topic => simp [steps, Spares, WorkQueue.Label.Loses]
  | brpop i => cases h : x.1.offered json i <;> simp [steps, Spares, h, WorkQueue.Label.Loses]
  | brpopLost i =>
      cases h : x.1.offered json i <;> simp [steps, Spares, h, WorkQueue.Label.Loses]
  | handled i ok => cases ok <;> simp [steps, Spares, WorkQueue.Label.Loses]
  | requeued i pushed => cases pushed <;> simp [steps, Spares, WorkQueue.Label.Loses]
  | stop i => cases h : x.1.holds i <;> simp [steps, Spares, h, WorkQueue.Label.Loses]

/-- Every message of a topic waits, is in a task, is done with or is lost. One that is done with is
so for good, and messages are lost exactly in the steps that do not spare them. -/
theorem subscriptions_conserve {as : List Label} {x : Subscriptions Text × WorkLog String Message}
    (he : (observed json refusal).exec (observed json refusal).init as = some x) :
    (∀ topic m, (x.2.published topic).count m = (x.1.redis.waiting json topic).count m +
      (x.1.subscribers.map Subscriber.holds).count (some (topic, m)) +
      (x.2.finished topic).count m + (x.2.lost topic).count m) ∧
    (∀ topic, (x.2.published topic).Nodup → (x.2.finished topic).Nodup ∧
      ∀ m ∈ x.2.finished topic, m ∉ x.1.redis.waiting json topic ∧
        some (topic, m) ∉ x.1.subscribers.map Subscriber.holds ∧ m ∉ x.2.lost topic) ∧
    ((∀ topic, x.2.lost topic = []) ↔
      (observed json refusal).Along (Spares json) (observed json refusal).init as) := by
  have hview := (simulation json refusal).exec_view he
  have hconserved := WorkQueue.conserved_exec hview
  refine ⟨hconserved, fun topic h => hconserved.once h, ?_⟩
  have hspares : (fun x a => ∀ b ∈ x.1.steps json a, ¬ b.Loses) = Spares json :=
    funext₂ (fun x a => propext (spares_iff json x a))
  rw [← hspares]
  exact (WorkQueue.lost_eq_nil_iff hview).trans ((simulation json refusal).forall_mem_run he)

/-- The steps that push no message a second time. -/
def Succeeds : Label → Prop
  | .requeued _ pushed => ¬ pushed
  | _ => True

variable (json) in
theorem succeeds_iff (s : Subscriptions Text) (a : Label) :
    (∀ b ∈ s.steps json a, ∀ i n, b ≠ .giveBack i n) ↔ Succeeds a := by
  cases a with
  | publish m => simp [steps, Succeeds]
  | pull topic => cases h : (s.redis.waiting json topic).head? <;> simp [steps, Succeeds, h]
  | pullLost topic => cases h : (s.redis.waiting json topic).head? <;> simp [steps, Succeeds, h]
  | subscribe topic => simp [steps, Succeeds]
  | brpop i => cases h : s.offered json i <;> simp [steps, Succeeds, h]
  | brpopLost i => cases h : s.offered json i <;> simp [steps, Succeeds, h]
  | handled i ok => cases ok <;> simp [steps, Succeeds]
  | requeued i pushed =>
      cases pushed <;> simp [steps, Succeeds]
  | stop i => cases h : s.holds i <;> simp [steps, Succeeds, h]

/-- What is pushed again goes behind everything that waits. -/
theorem atEnd {a : Label} (h : s.step json refusal a = some s') :
    WorkQueue.system.Along WorkQueue.AtEnd (view json (s, log)) (s.steps json a) := by
  by_cases ha : Succeeds a
  · have hnone := (succeeds_iff json s a).2 ha
    exact TransitionSystem.along_of_mem
      (fun b hb q i n hbn => absurd hbn (hnone b hb i n)) _
  · cases a with
    | requeued i pushed =>
        obtain ⟨sub, m, hsub, hstage, -⟩ := requeued_eq_some h
        have hholds : sub.holds = some (sub.topic, m) := by rw [Subscriber.holds, hstage]
        obtain rfl : pushed = true := by simpa [Succeeds] using ha
        rw [steps, if_pos rfl, holds_eq hsub, hholds]
        refine ⟨fun j n hj topic m' hheld => ?_, fun _ _ => trivial⟩
        obtain ⟨rfl, rfl⟩ := WorkQueue.Label.giveBack.inj hj
        have hsame := (held_view json log hsub).symm.trans hheld
        rw [hholds] at hsame
        cases hsame
        rfl
    | _ => exact absurd trivial ha

/-- Subscribers and clients take the messages of a topic in the order in which these were pushed,
and that is the order of publication exactly as long as nothing is pushed a second time. -/
theorem subscriptions_in_order {as : List Label} {x : Subscriptions Text × WorkLog String Message}
    (he : (observed json refusal).exec (observed json refusal).init as = some x) :
    (∀ topic, x.2.taken topic ++ x.1.redis.waiting json topic = x.2.entered topic) ∧
    ((∀ topic, x.2.taken topic ++ x.1.redis.waiting json topic = x.2.published topic) ↔
      ∀ a ∈ as, Succeeds a) := by
  have hview := (simulation json refusal).exec_view he
  have hend := (simulation json refusal).along_run (D := WorkQueue.AtEnd)
    (simulation json refusal).inv_init he (fun x a y _ h => by
      obtain ⟨s', hs, -⟩ := TransitionSystem.exists_of_observe_step h
      exact atEnd hs)
  have horder : ∀ topic, x.2.taken topic ++ x.1.redis.waiting json topic = x.2.entered topic :=
    WorkQueue.inOrder_exec hend hview
  refine ⟨horder, ?_⟩
  have hsucceeds : (fun x a => ∀ b ∈ x.1.steps json a, ∀ i n, b ≠ .giveBack i n) =
      fun (_ : Subscriptions Text × WorkLog String Message) a => Succeeds a :=
    funext₂ (fun x a => propext (succeeds_iff json x.1 a))
  rw [← TransitionSystem.along_iff_forall_mem he, ← hsucceeds]
  simp only [horder]
  rw [← funext_iff]
  exact (WorkQueue.entered_eq_published_iff hview).trans
    ((simulation json refusal).forall_mem_run he)

def retried : List Label :=
  [.subscribe "orders", .publish ⟨"orders", "1", [], "a"⟩, .publish ⟨"orders", "2", [], "b"⟩,
    .brpop 0, .handled 0 false, .requeued 0 true, .brpop 0, .handled 0 true]

abbrev plain : TransitionSystem (Subscriptions Json × WorkLog String Message) Label :=
  observed default (fun _ => "")

/-- The handler has failed on the first message, which waits behind the second. -/
theorem exec_retried : ∃ x, plain.exec plain.init retried = some x ∧
    x.2.taken "orders" = [⟨"orders", "1", [], "a"⟩, ⟨"orders", "2", [], "b"⟩] ∧
    x.2.finished "orders" = [⟨"orders", "2", [], "b"⟩] :=
  ⟨_, rfl, rfl, rfl⟩

theorem subscriptions_in_order_retried : ∃ x, plain.exec plain.init retried = some x ∧
    x.2.taken "orders" = [⟨"orders", "1", [], "a"⟩, ⟨"orders", "2", [], "b"⟩] ∧
    ∀ topic, x.2.taken topic ++ x.1.redis.waiting default topic = x.2.entered topic := by
  obtain ⟨x, he, htaken, -⟩ := exec_retried
  exact ⟨x, he, htaken, (subscriptions_in_order he).1⟩

def lossy : List Label :=
  [.subscribe "orders", .publish ⟨"orders", "1", [], "a"⟩, .publish ⟨"orders", "2", [], "b"⟩,
    .pullLost "orders", .brpop 0, .handled 0 true]

theorem subscriptions_conserve_lossy : ∃ x, plain.exec plain.init lossy = some x ∧
    ¬ plain.Along (Spares default) plain.init lossy ∧
    ∀ m ∈ x.2.finished "orders", m ∉ x.1.redis.waiting default "orders" ∧
      some ("orders", m) ∉ x.1.subscribers.map Subscriber.holds ∧ m ∉ x.2.lost "orders" := by
  obtain ⟨x, he, hlost, hpublished⟩ : ∃ x, plain.exec plain.init lossy = some x ∧
      x.2.lost "orders" = [⟨"orders", "1", [], "a"⟩] ∧
      x.2.published "orders" = [⟨"orders", "1", [], "a"⟩, ⟨"orders", "2", [], "b"⟩] :=
    ⟨_, rfl, rfl, rfl⟩
  obtain ⟨-, honce, hnone⟩ := subscriptions_conserve he
  refine ⟨x, he, fun halong => ?_, (honce "orders" (hpublished ▸ by simp)).2⟩
  rw [hnone.2 halong] at hlost
  cases hlost

end Subscriptions
end Rszero.Queue.Redis
