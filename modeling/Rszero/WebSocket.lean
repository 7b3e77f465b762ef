import Mathlib.Logic.Function.Basic
import Mathlib.Tactic.Common
import Rszero.BroadcastChannel
import Rszero.Json
import Rszero.TransitionSystem

/-!
# The WebSocket manager

The manager, and the handlers of its connections as they run between two acquisitions of a lock and
between the arms of the `select!` loop. Clients are known by their ids. A handler subscribes to the
manager's channel; a room has a channel of its own, which is known by what was sent on it. A frame
carries, besides what the client gets, the retry it is and the instant the manager recorded for it.
Instants are counted in nanoseconds, the system clock in seconds.
-/

namespace Rszero.WebSocket

abbrev ClientId := ℕ

structure HeartbeatConfig where
  timeout : ℕ
  enabled : Bool

def HeartbeatConfig.timeoutSecs (heartbeat : HeartbeatConfig) : ℕ := heartbeat.timeout / 1000000000

structure AckConfig where
  enabled : Bool
  timeout : ℕ
  max_retries : ℕ

structure Config where
  heartbeat : HeartbeatConfig
  ack : AckConfig

def Config.default : Config := ⟨⟨60000000000, true⟩, ⟨true, 5000000000, 3⟩⟩

structure UnackedMessage where
  payload : String
  retry_count : ℕ
  sent_at : ℕ
  deriving DecidableEq

abbrev Unacked := List (String × UnackedMessage)

structure WsConnection where
  last_pong : ℕ
  room : Option String
  unacked : Unacked

structure Frame where
  id : Option String
  payload : String
  retry : ℕ
  sent_at : ℕ
  deriving DecidableEq

inductive Stage
  | absent
  | pushed
  | idle
  | tracking (id msg : String)
  | sending (frame : Frame)
  | joining (room : String)
  | leaving
  | counting (room : String)
  | removing (room : String)
  | gone
  deriving DecidableEq

/-- `next` is the index of the receiver in the manager's channel, `socket` what was sent. -/
structure Handler where
  stage : Stage
  next : ℕ
  socket : List Frame

/-- `sent` is what was sent on the manager's channel. -/
structure State where
  now : ℕ
  sent : List String
  rooms : String → Option (List String)
  connections : List ClientId
  conn : ClientId → WsConnection
  handler : ClientId → Handler

/-- The order in which the map of unacknowledged messages is iterated. -/
structure MapOrder where
  order : Unacked → Unacked
  perm : ∀ entries, (order entries).Perm entries

inductive Label
  | elapse (d : ℕ)
  | connect (i : ClientId) (secs : ℕ)
  | subscribe (i : ClientId)
  | broadcast (msg : String)
  | broadcastRoom (room msg : String)
  | receive (i : ClientId) (id : String)
  | track (i : ClientId)
  | transmit (i : ClientId) (ok : Bool)
  | ackTick (i : ClientId) (iter : MapOrder)
  | ping (i : ClientId) (secs : ℕ) (ok : Bool)
  | text (i : ClientId) (value : Option Json)
  | joined (i : ClientId)
  | pong (i : ClientId) (secs : ℕ)
  | close (i : ClientId)
  | remove (i : ClientId)
  | count (i : ClientId)
  | removeRoom (i : ClientId)

inductive Command
  | ack (id : String)
  | join (room : String)
  | leave (room : String)
  | other

/-- `cmd.get(name).and_then(|v| v.as_str())` -/
def field (value : Option Json) (name : String) : Option String :=
  match value with
  | some (.obj fields) => (fields.lookup name).bind Json.asStr
  | _ => none

/-- What the loop and `handle_client_message` make of a text, of which `value` was read. -/
def command (ackEnabled : Bool) (value : Option Json) : Command :=
  match if ackEnabled then field value "ack" else none with
  | some id => .ack id
  | none =>
      match field value "join", field value "leave" with
      | some room, _ => .join room
      | none, some room => .leave room
      | none, none => .other

def Unacked.remove (unacked : Unacked) (id : String) : Unacked :=
  unacked.filter (fun e => e.1 ≠ id)

def Unacked.insert (unacked : Unacked) (id : String) (message : UnackedMessage) : Unacked :=
  (id, message) :: Unacked.remove unacked id

def UnackedMessage.overdue (message : UnackedMessage) (ack : AckConfig) (now : ℕ) : Bool :=
  now - message.sent_at > ack.timeout

/-- The entry after a tick, unless its retries are exhausted. -/
def retransmit (ack : AckConfig) (now : ℕ) (e : String × UnackedMessage) :
    Option (String × UnackedMessage) :=
  if e.2.overdue ack now then
    if e.2.retry_count ≥ ack.max_retries then none
    else some (e.1, { e.2 with retry_count := e.2.retry_count + 1, sent_at := now })
  else some e

def retransmission (ack : AckConfig) (now : ℕ) (e : String × UnackedMessage) :
    Option Frame :=
  if e.2.overdue ack now then
    if e.2.retry_count ≥ ack.max_retries then none
    else some ⟨some e.1, e.2.payload, e.2.retry_count + 1, now⟩
  else none

namespace State

def stage (s : State) (i : ClientId) : Stage := (s.handler i).stage

def goto (s : State) (i : ClientId) (stage : Stage) : State :=
  { s with handler := Function.update s.handler i { s.handler i with stage := stage } }

def advance (s : State) (i : ClientId) (next : ℕ) : State :=
  { s with handler := Function.update s.handler i { s.handler i with next := next } }

def send (s : State) (i : ClientId) (frames : List Frame) : State :=
  { s with
    handler := Function.update s.handler i
      { s.handler i with socket := (s.handler i).socket ++ frames } }

/-- `conns.iter_mut().find(|c| c.id == client_id)`, and then the change. -/
def modify (s : State) (i : ClientId) (f : WsConnection → WsConnection) : State :=
  if i ∈ s.connections then { s with conn := Function.update s.conn i (f (s.conn i)) } else s

def roomCount (s : State) (room : String) : ℕ :=
  s.connections.countP (fun i => (s.conn i).room = some room)

/-- `rooms.entry(room).or_insert_with(..)` -/
def enterRoom (s : State) (room : String) : State :=
  { s with rooms := Function.update s.rooms room (some ((s.rooms room).getD [])) }

def leaveRoom (s : State) (i : ClientId) (room : String) : State :=
  s.modify i (fun c => if c.room = some room then { c with room := none } else c)

def handleText (s : State) (i : ClientId) : Command → State
  | .ack id => s.modify i (fun c => { c with unacked := Unacked.remove c.unacked id })
  | .join room => (s.enterRoom room).goto i (.joining room)
  | .leave room => s.leaveRoom i room
  | .other => s

/-- `broadcast::channel(1024)` -/
def channelCapacity : ℕ := 1024

def next (cfg : Config) (s : State) : Label → Option State
  | .elapse d => some { s with now := s.now + d }
  | .connect i secs =>
      if s.stage i = .absent then
        some ({ s with
          connections := s.connections ++ [i]
          conn := Function.update s.conn i ⟨secs, none, []⟩ }.goto i .pushed)
      else none
  | .subscribe i =>
      if s.stage i = .pushed then
        some ((s.advance i (BroadcastChannel.subscribe s.sent)).goto i .idle)
      else none
  | .broadcast msg => some { s with sent := s.sent ++ [msg] }
  | .broadcastRoom room msg =>
      some { s with
        rooms := Function.update s.rooms room ((s.rooms room).map (fun sent => sent ++ [msg])) }
  | .receive i id =>
      if s.stage i = .idle then
        match BroadcastChannel.recv channelCapacity s.sent true (s.handler i).next with
        | .value msg => some ((s.advance i ((s.handler i).next + 1)).goto i
            (if cfg.ack.enabled then .tracking id msg else .sending ⟨none, msg, 0, s.now⟩))
        | .lagged => some (s.advance i (s.sent.length - channelCapacity))
        | _ => none
      else none
  | .track i =>
      match s.stage i with
      | .tracking id msg =>
          some ((s.modify i (fun c => { c with
              unacked := Unacked.insert c.unacked id ⟨msg, 0, s.now⟩ })).goto i
            (.sending ⟨some id, msg, 0, s.now⟩))
      | _ => none
  | .transmit i ok =>
      match s.stage i with
      | .sending frame => some (if ok then (s.send i [frame]).goto i .idle else s.goto i .leaving)
      | _ => none
  | .ackTick i iter =>
      if s.stage i = .idle ∧ cfg.ack.enabled then
        some (if i ∈ s.connections then
          (s.modify i (fun c => { c with
              unacked := c.unacked.filterMap (retransmit cfg.ack s.now) })).send i
            ((iter.order (s.conn i).unacked).filterMap (retransmission cfg.ack s.now))
        else s)
      else none
  | .ping i secs ok =>
      if s.stage i = .idle ∧ cfg.heartbeat.enabled then
        some (if i ∈ s.connections ∧ secs - (s.conn i).last_pong > cfg.heartbeat.timeoutSecs ∨ !ok
          then s.goto i .leaving else s)
      else none
  | .text i value =>
      if s.stage i = .idle then some (s.handleText i (command cfg.ack.enabled value)) else none
  | .joined i =>
      match s.stage i with
      | .joining room => some ((s.modify i (fun c => { c with room := some room })).goto i .idle)
      | _ => none
  | .pong i secs =>
      if s.stage i = .idle then some (s.modify i (fun c => { c with last_pong := secs })) else none
  | .close i => if s.stage i = .idle then some (s.goto i .leaving) else none
  | .remove i =>
      if s.stage i = .leaving then
        some ({ s with connections := s.connections.filter (· ≠ i) }.goto i
          (match if i ∈ s.connections then (s.conn i).room else none with
            | some room => .counting room
            | none => .gone))
      else none
  | .count i =>
      match s.stage i with
      | .counting room => some (s.goto i (if s.roomCount room = 0 then .removing room else .gone))
      | _ => none
  | .removeRoom i =>
      match s.stage i with
      | .removing room =>
          some ({ s with rooms := Function.update s.rooms room none }.goto i .gone)
      | _ => none

end State

def system (cfg : Config) : TransitionSystem State Label where
  init := ⟨0, [], fun _ => none, [], fun _ => ⟨0, none, []⟩, fun _ => ⟨.absent, 0, []⟩⟩
  step := State.next cfg

def joinText (room : String) : Option Json := some (.obj [("join", .str room)])

def joins (i : ClientId) (room : String) : List Label :=
  [.connect i 0, .subscribe i, .text i (joinText room), .joined i]

namespace State

variable (s : State) (i : ClientId) (stage : Stage) (n : ℕ) (frames : List Frame)
  (f : WsConnection → WsConnection)

@[simp] theorem goto_now : (s.goto i stage).now = s.now := rfl
@[simp] theorem goto_sent : (s.goto i stage).sent = s.sent := rfl
@[simp] theorem goto_rooms : (s.goto i stage).rooms = s.rooms := rfl
@[simp] theorem goto_connections : (s.goto i stage).connections = s.connections := rfl
@[simp] theorem goto_conn : (s.goto i stage).conn = s.conn := rfl

@[simp] theorem advance_now : (s.advance i n).now = s.now := rfl
@[simp] theorem advance_sent : (s.advance i n).sent = s.sent := rfl
@[simp] theorem advance_rooms : (s.advance i n).rooms = s.rooms := rfl
@[simp] theorem advance_connections : (s.advance i n).connections = s.connections := rfl
@[simp] theorem advance_conn : (s.advance i n).conn = s.conn := rfl

@[simp] theorem send_now : (s.send i frames).now = s.now := rfl
@[simp] theorem send_sent : (s.send i frames).sent = s.sent := rfl
@[simp] theorem send_rooms : (s.send i frames).rooms = s.rooms := rfl
@[simp] theorem send_connections : (s.send i frames).connections = s.connections := rfl
@[simp] theorem send_conn : (s.send i frames).conn = s.conn := rfl

@[simp] theorem enterRoom_connections (room : String) :
    (s.enterRoom room).connections = s.connections := rfl
@[simp] theorem enterRoom_conn (room : String) : (s.enterRoom room).conn = s.conn := rfl
@[simp] theorem enterRoom_handler (room : String) : (s.enterRoom room).handler = s.handler := rfl

theorem modify_cases : s.modify i f = s ∧ i ∉ s.connections ∨
    s.modify i f = { s with conn := Function.update s.conn i (f (s.conn i)) } ∧
      i ∈ s.connections := by
  by_cases hi : i ∈ s.connections
  · exact .inr ⟨if_pos hi, hi⟩
  · exact .inl ⟨if_neg hi, hi⟩

@[simp] theorem modify_now : (s.modify i f).now = s.now := by
  rcases s.modify_cases i f with ⟨h, -⟩ | ⟨h, -⟩ <;> rw [h]

@[simp] theorem modify_sent : (s.modify i f).sent = s.sent := by
  rcases s.modify_cases i f with ⟨h, -⟩ | ⟨h, -⟩ <;> rw [h]

@[simp] theorem modify_rooms : (s.modify i f).rooms = s.rooms := by
  rcases s.modify_cases i f with ⟨h, -⟩ | ⟨h, -⟩ <;> rw [h]

@[simp] theorem modify_connections : (s.modify i f).connections = s.connections := by
  rcases s.modify_cases i f with ⟨h, -⟩ | ⟨h, -⟩ <;> rw [h]

@[simp] theorem modify_handler : (s.modify i f).handler = s.handler := by
  rcases s.modify_cases i f with ⟨h, -⟩ | ⟨h, -⟩ <;> rw [h]

theorem modify_conn_self {i : ClientId} (hi : i ∈ s.connections) :
    (s.modify i f).conn i = f (s.conn i) := by
  rw [modify, if_pos hi]
  exact Function.update_self ..

theorem modify_conn_of_ne {i j : ClientId} (hne : j ≠ i) : (s.modify i f).conn j = s.conn j := by
  rcases s.modify_cases i f with ⟨h, -⟩ | ⟨h, -⟩
  · rw [h]
  · rw [h]
    exact Function.update_of_ne hne ..

@[simp] theorem modify_stage : (s.modify i f).stage = s.stage := by
  funext j
  rw [State.stage, modify_handler]
  rfl

@[simp] theorem goto_handler_self :
    (s.goto i stage).handler i = { s.handler i with stage := stage } := Function.update_self ..

@[simp] theorem advance_handler_self :
    (s.advance i n).handler i = { s.handler i with next := n } := Function.update_self ..

@[simp] theorem send_handler_self :
    (s.send i frames).handler i =
      { s.handler i with socket := (s.handler i).socket ++ frames } := Function.update_self ..

theorem goto_handler_of_ne {i j : ClientId} (hne : j ≠ i) :
    (s.goto i stage).handler j = s.handler j := Function.update_of_ne hne ..

theorem advance_handler_of_ne {i j : ClientId} (hne : j ≠ i) :
    (s.advance i n).handler j = s.handler j := Function.update_of_ne hne ..

theorem send_handler_of_ne {i j : ClientId} (hne : j ≠ i) :
    (s.send i frames).handler j = s.handler j := Function.update_of_ne hne ..

theorem goto_stage : (s.goto i stage).stage = Function.update s.stage i stage := by
  funext j
  by_cases hj : j = i
  · subst hj
    simp [State.stage, goto]
  · simp [State.stage, goto, hj]

@[simp] theorem goto_stage_self : (s.goto i stage).stage i = stage := by simp [goto_stage]

theorem goto_stage_of_ne {i j : ClientId} (hne : j ≠ i) :
    (s.goto i stage).stage j = s.stage j := by
  rw [goto_stage, Function.update_of_ne hne]

@[simp] theorem advance_stage : (s.advance i n).stage = s.stage := by
  funext j
  by_cases hj : j = i
  · subst hj
    simp [State.stage, advance]
  · simp [State.stage, advance, hj]

@[simp] theorem send_stage : (s.send i frames).stage = s.stage := by
  funext j
  by_cases hj : j = i
  · subst hj
    simp [State.stage, send]
  · simp [State.stage, send, hj]

end State

section Moves

open BroadcastChannel State

variable {cfg : Config} {s s' : State} {a : Label}

inductive Move (cfg : Config) (s : State) : Label → State → Prop
  | elapse (d : ℕ) : Move cfg s (.elapse d) { s with now := s.now + d }
  | connect {i : ClientId} {secs : ℕ} (hs : s.stage i = .absent) :
      Move cfg s (.connect i secs) ({ s with
        connections := s.connections ++ [i]
        conn := Function.update s.conn i ⟨secs, none, []⟩ }.goto i .pushed)
  | subscribe {i : ClientId} (hs : s.stage i = .pushed) :
      Move cfg s (.subscribe i) ((s.advance i s.sent.length).goto i .idle)
  | broadcast (msg : String) : Move cfg s (.broadcast msg) { s with sent := s.sent ++ [msg] }
  | broadcastRoom (room msg : String) :
      Move cfg s (.broadcastRoom room msg) { s with
        rooms := Function.update s.rooms room ((s.rooms room).map (fun sent => sent ++ [msg])) }
  | receive {i : ClientId} {id msg : String} (hs : s.stage i = .idle)
      (hr : recv channelCapacity s.sent true (s.handler i).next = .value msg) :
      Move cfg s (.receive i id) ((s.advance i ((s.handler i).next + 1)).goto i
        (if cfg.ack.enabled then .tracking id msg else .sending ⟨none, msg, 0, s.now⟩))
  | lag {i : ClientId} {id : String} (hs : s.stage i = .idle)
      (hr : recv channelCapacity s.sent true (s.handler i).next = .lagged) :
      Move cfg s (.receive i id) (s.advance i (s.sent.length - channelCapacity))
  | track {i : ClientId} {id msg : String} (hs : s.stage i = .tracking id msg) :
      Move cfg s (.track i) ((s.modify i (fun c => { c with
        unacked := Unacked.insert c.unacked id ⟨msg, 0, s.now⟩ })).goto i
          (.sending ⟨some id, msg, 0, s.now⟩))
  | transmit {i : ClientId} {frame : Frame} (hs : s.stage i = .sending frame) :
      Move cfg s (.transmit i true) ((s.send i [frame]).goto i .idle)
  | sendFails {i : ClientId} {frame : Frame} (hs : s.stage i = .sending frame) :
      Move cfg s (.transmit i false) (s.goto i .leaving)
  | ackTick {i : ClientId} {iter : MapOrder} (hs : s.stage i = .idle) (ha : cfg.ack.enabled)
      (hi : i ∈ s.connections) :
      Move cfg s (.ackTick i iter) ((s.modify i (fun c => { c with
        unacked := c.unacked.filterMap (retransmit cfg.ack s.now) })).send i
          ((iter.order (s.conn i).unacked).filterMap (retransmission cfg.ack s.now)))
  | tickOff {i : ClientId} {iter : MapOrder} : Move cfg s (.ackTick i iter) s
  | pinged {i : ClientId} {secs : ℕ} {ok : Bool} : Move cfg s (.ping i secs ok) s
  | timeout {i : ClientId} {secs : ℕ} {ok : Bool} (hs : s.stage i = .idle) :
      Move cfg s (.ping i secs ok) (s.goto i .leaving)
  | close {i : ClientId} (hs : s.stage i = .idle) : Move cfg s (.close i) (s.goto i .leaving)
  | text {i : ClientId} {value : Option Json} (hs : s.stage i = .idle) :
      Move cfg s (.text i value) (s.handleText i (command cfg.ack.enabled value))
  | joined {i : ClientId} {room : String} (hs : s.stage i = .joining room) :
      Move cfg s (.joined i) ((s.modify i (fun c => { c with room := some room })).goto i .idle)
  | pong {i : ClientId} {secs : ℕ} (hs : s.stage i = .idle) :
      Move cfg s (.pong i secs) (s.modify i (fun c => { c with last_pong := secs }))
  | remove {i : ClientId} (hs : s.stage i = .leaving) :
      Move cfg s (.remove i) ({ s with connections := s.connections.filter (· ≠ i) }.goto i
        (match if i ∈ s.connections then (s.conn i).room else none with
          | some room => .counting room
          | none => .gone))
  | count {i : ClientId} {room : String} (hs : s.stage i = .counting room) :
      Move cfg s (.count i) (s.goto i (if s.roomCount room = 0 then .removing room else .gone))
  | removeRoom {i : ClientId} {room : String} (hs : s.stage i = .removing room) :
      Move cfg s (.removeRoom i)
        ({ s with rooms := Function.update s.rooms room none }.goto i .gone)

theorem next_move (h : (system cfg).step s a = some s') : Move cfg s a s' := by
  change State.next cfg s a = some s' at h
  cases a with
  | elapse d =>
      cases h
      exact .elapse d
  | connect i secs =>
      obtain ⟨hs, h⟩ := Option.ite_none_right_eq_some.1 h
      cases h
      exact .connect hs
  | subscribe i =>
      obtain ⟨hs, h⟩ := Option.ite_none_right_eq_some.1 h
      cases h
      exact .subscribe hs
  | broadcast msg =>
      cases h
      exact .broadcast msg
  | broadcastRoom room msg =>
      cases h
      exact .broadcastRoom room msg
  | receive i id =>
      obtain ⟨hs, h⟩ := Option.ite_none_right_eq_some.1 h
      cases hr : recv channelCapacity s.sent true (s.handler i).next with
      | value msg =>
          rw [hr] at h
          cases h
          exact .receive hs hr
      | lagged =>
          rw [hr] at h
          cases h
          exact .lag hs hr
      | closed | pending =>
          rw [hr] at h
          cases h
  | track i =>
      simp only [State.next] at h
      split at h
      · cases h
        exact .track ‹_›
      · cases h
  | transmit i ok =>
      simp only [State.next] at h
      split at h
      · cases ok with
        | true =>
            cases h
            exact .transmit ‹_›
        | false =>
            cases h
            exact .sendFails ‹_›
      · cases h
  | ackTick i iter =>
      obtain ⟨hs, h⟩ := Option.ite_none_right_eq_some.1 h
      by_cases hi : i ∈ s.connections
      · rw [if_pos hi] at h
        cases h
        exact .ackTick hs.1 hs.2 hi
      · rw [if_neg hi] at h
        cases h
        exact .tickOff
  | ping i secs ok =>
      obtain ⟨⟨hs, -⟩, h⟩ := Option.ite_none_right_eq_some.1 h
      split_ifs at h with hleave
      · cases h
        exact .timeout hs
      · cases h
        exact .pinged
  | text i value =>
      obtain ⟨hs, h⟩ := Option.ite_none_right_eq_some.1 h
      cases h
      exact .text hs
  | joined i =>
      simp only [State.next] at h
      split at h
      · cases h
        exact .joined ‹_›
      · cases h
  | pong i secs =>
      obtain ⟨hs, h⟩ := Option.ite_none_right_eq_some.1 h
      cases h
      exact .pong hs
  | close i =>
      obtain ⟨hs, h⟩ := Option.ite_none_right_eq_some.1 h
      cases h
      exact .close hs
  | remove i =>
      obtain ⟨hs, h⟩ := Option.ite_none_right_eq_some.1 h
      cases h
      exact .remove hs
  | count i =>
      simp only [State.next] at h
      split at h
      · cases h
        exact .count ‹_›
      · cases h
  | removeRoom i =>
      simp only [State.next] at h
      split at h
      · cases h
        exact .removeRoom ‹_›
      · cases h

/-- The connection whose handler takes the step. -/
def Label.client : Label → Option ClientId
  | .connect i _ | .subscribe i | .receive i _ | .track i | .transmit i _ | .ackTick i _
  | .ping i _ _ | .text i _ | .joined i | .pong i _ | .close i | .remove i | .count i
  | .removeRoom i => some i
  | .elapse _ | .broadcast _ | .broadcastRoom .. => none

theorem handleText_handler_of_ne {i j : ClientId} (hne : j ≠ i) (c : Command) :
    (s.handleText i c).handler j = s.handler j := by
  cases c with
  | ack id => exact congrFun (modify_handler ..) j
  | join room => exact goto_handler_of_ne _ _ hne
  | leave room => exact congrFun (modify_handler ..) j
  | other => rfl

theorem handleText_conn_of_ne {i j : ClientId} (hne : j ≠ i) (c : Command) :
    (s.handleText i c).conn j = s.conn j := by
  cases c with
  | ack id => exact modify_conn_of_ne _ _ hne
  | join room => rfl
  | leave room => exact modify_conn_of_ne _ _ hne
  | other => rfl

theorem handleText_sent {i : ClientId} (c : Command) : (s.handleText i c).sent = s.sent := by
  cases c with
  | ack id => exact modify_sent ..
  | join room => rfl
  | leave room => exact modify_sent ..
  | other => rfl

/-- A step changes nothing of the other handlers and connections. -/
theorem step_of_ne {j : ClientId} (h : (system cfg).step s a = some s')
    (hj : a.client ≠ some j) : s'.handler j = s.handler j ∧ s'.conn j = s.conn j := by
  have hne {i : ClientId} (hi : some i ≠ some j) : j ≠ i := fun heq => hi (congrArg some heq.symm)
  cases next_move h with
  | elapse | broadcast | broadcastRoom | tickOff | pinged => exact ⟨rfl, rfl⟩
  | connect hs =>
      exact ⟨goto_handler_of_ne _ _ (hne hj), Function.update_of_ne (hne hj) ..⟩
  | subscribe hs | receive hs hr =>
      rw [goto_handler_of_ne _ _ (hne hj), advance_handler_of_ne _ _ (hne hj)]
      exact ⟨rfl, rfl⟩
  | lag hs hr => exact ⟨advance_handler_of_ne _ _ (hne hj), rfl⟩
  | track hs | joined hs =>
      rw [goto_handler_of_ne _ _ (hne hj), modify_handler, goto_conn,
        modify_conn_of_ne _ _ (hne hj)]
      exact ⟨rfl, rfl⟩
  | transmit hs =>
      rw [goto_handler_of_ne _ _ (hne hj), send_handler_of_ne _ _ (hne hj)]
      exact ⟨rfl, rfl⟩
  | ackTick hs ha hi =>
      rw [send_handler_of_ne _ _ (hne hj), modify_handler, send_conn,
        modify_conn_of_ne _ _ (hne hj)]
      exact ⟨rfl, rfl⟩
  | pong hs =>
      exact ⟨congrFun (modify_handler ..) j, modify_conn_of_ne _ _ (hne hj)⟩
  | text hs => exact ⟨handleText_handler_of_ne (hne hj) _, handleText_conn_of_ne (hne hj) _⟩
  | sendFails hs | timeout hs | close hs | remove hs | count hs | removeRoom hs =>
      exact ⟨goto_handler_of_ne _ _ (hne hj), rfl⟩

/-- What is sent on the manager's channel is sent by a broadcast. -/
theorem step_sent {i : ClientId} (h : (system cfg).step s a = some s')
    (hi : a.client = some i) : s'.sent = s.sent := by
  cases next_move h with
  | elapse | broadcast | broadcastRoom => cases hi
  | text hs => exact handleText_sent _
  | _ => simp

/-- The handler has entered its connection and not removed it. -/
def Stage.inside : Stage → Bool
  | .absent | .counting _ | .removing _ | .gone => false
  | _ => true

def Attached (s : State) : Prop := ∀ i, i ∈ s.connections ↔ (s.stage i).inside

theorem Attached.goto (h : Attached s) {i : ClientId} {stage : Stage}
    (hs : stage.inside = (s.stage i).inside) : Attached (s.goto i stage) := by
  intro j
  by_cases hj : j = i
  · subst hj
    rw [goto_stage_self, hs]
    exact h j
  · rw [goto_stage_of_ne s stage hj]
    exact h j

theorem Attached.advance (h : Attached s) (i : ClientId) (n : ℕ) : Attached (s.advance i n) := by
  intro j
  rw [advance_stage]
  exact h j

theorem Attached.send (h : Attached s) (i : ClientId) (frames : List Frame) :
    Attached (s.send i frames) := by
  intro j
  rw [send_stage]
  exact h j

theorem Attached.modify (h : Attached s) (i : ClientId) (f : WsConnection → WsConnection) :
    Attached (s.modify i f) := by
  intro j
  rw [modify_connections, modify_stage]
  exact h j

theorem Attached.handleText (h : Attached s) {i : ClientId} (hs : s.stage i = .idle)
    (c : Command) : Attached (s.handleText i c) := by
  cases c with
  | ack id => exact h.modify _ _
  | join room =>
      have hentered : Attached (s.enterRoom room) := h
      apply hentered.goto
      change _ = (s.stage i).inside
      rw [hs]
      rfl
  | leave room => exact h.modify _ _
  | other => exact h

theorem attached_step (h : Attached s) (hstep : (system cfg).step s a = some s') :
    Attached s' := by
  cases next_move hstep with
  | elapse | broadcast | broadcastRoom | tickOff | pinged => exact h
  | @connect i secs hs =>
      intro j
      by_cases hj : j = i
      · subst hj
        simp [Stage.inside]
      · rw [goto_stage_of_ne _ _ hj, goto_connections, List.mem_append, List.mem_singleton,
          or_iff_left hj]
        exact h j
  | subscribe hs =>
      refine (h.advance _ _).goto ?_
      rw [advance_stage, hs]
      rfl
  | receive hs hr =>
      refine (h.advance _ _).goto ?_
      rw [advance_stage, hs]
      split_ifs <;> rfl
  | lag hs hr => exact h.advance _ _
  | track hs =>
      refine (h.modify _ _).goto ?_
      rw [modify_stage, hs]
      rfl
  | transmit hs =>
      refine (h.send _ _).goto ?_
      rw [send_stage, hs]
      rfl
  | sendFails hs | timeout hs | close hs =>
      apply h.goto
      rw [hs]
      rfl
  | ackTick hs ha hi => exact (h.modify _ _).send _ _
  | text hs => exact h.handleText hs _
  | joined hs =>
      refine (h.modify _ _).goto ?_
      rw [modify_stage, hs]
      rfl
  | pong hs => exact h.modify _ _
  | @remove i hs =>
      intro j
      by_cases hj : j = i
      · subst hj
        rw [goto_stage_self, goto_connections]
        split <;> simp [Stage.inside]
      · rw [goto_stage_of_ne _ _ hj, goto_connections, List.mem_filter, decide_eq_true_iff,
          and_iff_left hj]
        exact h j
  | count hs =>
      apply h.goto
      rw [hs]
      split_ifs <;> rfl
  | @removeRoom i room hs =>
      have hrooms : Attached { s with rooms := Function.update s.rooms room none } := h
      apply hrooms.goto
      change _ = (s.stage i).inside
      rw [hs]
      rfl

theorem attached_init (cfg : Config) : Attached (system cfg).init := by
  intro i
  simp [system, State.stage, Stage.inside]

end Moves

end Rszero.WebSocket
