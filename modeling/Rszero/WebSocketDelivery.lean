import Rszero.WebSocket

/-!
# Delivery to clients and rooms

What was addressed to a client is a history of the calls: a broadcast addresses every connection, a
broadcast to a room its members. A handler receives from the manager's channel only, so nothing that
is sent on the channel of a room gets to a client.
-/

namespace Rszero.WebSocket

open BroadcastChannel

def Stage.serving : Stage → Bool
  | .pushed | .idle | .tracking .. | .sending _ | .joining _ => true
  | _ => false

def Handler.delivered (h : Handler) : List String :=
  (h.socket.filter (fun frame => frame.retry = 0)).map Frame.payload

def Handler.inHand (h : Handler) : List String :=
  match h.stage with
  | .tracking _ msg => [msg]
  | .sending frame => [frame.payload]
  | _ => []

def Handler.backlog (h : Handler) (sent : List String) : List String :=
  if h.stage = .pushed then [] else sent.drop h.next

abbrev Addressed := ClientId → List String

def address (m : Addressed) (s : State) (a : Label) (_ : State) : Addressed :=
  match a with
  | .broadcast msg => fun i => if i ∈ s.connections then m i ++ [msg] else m i
  | .broadcastRoom room msg =>
      fun i => if i ∈ s.connections ∧ (s.conn i).room = some room then m i ++ [msg] else m i
  | _ => m

def addressing (cfg : Config) : TransitionSystem (State × Addressed) Label :=
  (system cfg).observe (fun _ => []) address

/-- A client whose handler is in its loop has got what was addressed to it, or will get it in turn,
each message once and in order; no client gets anything else, but for retransmissions where they are
enabled. -/
def Delivers (cfg : Config) (x : State × Addressed) : Prop :=
  ∀ i, ((x.1.stage i).serving → (x.1.handler i).delivered ++ (x.1.handler i).inHand ++
      (x.1.handler i).backlog x.1.sent = x.2 i) ∧
    (x.1.handler i).delivered <+: x.2 i ∧
    (cfg.ack.enabled = false → ∀ frame ∈ (x.1.handler i).socket, frame.retry = 0)

/-- No receiver lags behind the manager's channel. -/
def KeepsUp (s : State) (a : Label) : Prop :=
  ∀ i id, a = .receive i id → s.stage i = .idle →
    recv State.channelCapacity s.sent true (s.handler i).next ≠ .lagged

/-- A room that is broadcast to has no member whose handler is in its loop, and no handler stands
between its entry into the connections and its subscription when there is a broadcast. -/
def Reaches (x : State × Addressed) : Label → Prop
  | .broadcast _ => ∀ i, x.1.stage i ≠ .pushed
  | .broadcastRoom room _ => ∀ i, (x.1.stage i).serving → (x.1.conn i).room ≠ some room
  | _ => True

theorem delivered_transmit (h : Handler) {frame : Frame} (hretry : frame.retry = 0)
    (stage : Stage) : Handler.delivered ⟨stage, h.next, h.socket ++ [frame]⟩ =
      h.delivered ++ [frame.payload] := by
  simp [Handler.delivered, hretry]

theorem delivered_retransmit (h : Handler) {frames : List Frame}
    (hretry : ∀ frame ∈ frames, frame.retry ≠ 0) :
    Handler.delivered { h with socket := h.socket ++ frames } = h.delivered := by
  have hnone : frames.filter (fun frame => frame.retry = 0) = [] := by
    simpa [List.filter_eq_nil_iff] using hretry
  simp only [Handler.delivered, List.filter_append, hnone, List.append_nil]

theorem retry_ne_zero {ack : AckConfig} {now : ℕ} {e : String × UnackedMessage}
    {frame : Frame} (h : retransmission ack now e = some frame) : frame.retry ≠ 0 := by
  unfold retransmission at h
  split_ifs at h
  rw [← Option.some.inj h]
  exact Nat.succ_ne_zero _

theorem retry_ne_zero_of_mem {ack : AckConfig} {now : ℕ} {unacked : Unacked} :
    ∀ frame ∈ unacked.filterMap (retransmission ack now), frame.retry ≠ 0 := by
  intro frame hframe
  obtain ⟨e, -, he⟩ := List.mem_filterMap.1 hframe
  exact retry_ne_zero he

structure Flow (retries : Bool) (h : Handler) (sent addressed : List String) : Prop where
  fresh : h.stage = .absent → h.socket = [] ∧ addressed = []
  first : ∀ frame, h.stage = .sending frame → frame.retry = 0
  bound : h.stage.serving → h.stage ≠ .pushed → h.next ≤ sent.length
  total : h.stage.serving → h.delivered ++ h.inHand ++ h.backlog sent = addressed
  upTo : h.delivered <+: addressed
  once : retries = false → ∀ frame ∈ h.socket, frame.retry = 0

section Flow

variable {retries : Bool} {h : Handler} {sent addressed : List String}

/-- A handler out of its loop gets nothing more. -/
theorem Flow.quit (hf : Flow retries h sent addressed) {stage : Stage} (hs : stage.serving = false)
    (hne : stage ≠ .absent) : Flow retries { h with stage := stage } sent addressed where
  fresh := fun habsent => absurd habsent hne
  first := by
    rintro frame rfl
    cases hs
  bound := fun hserving => by simp [hs] at hserving
  total := fun hserving => by simp [hs] at hserving
  upTo := hf.upTo
  once := hf.once

/-- A handler that moves on in its loop with nothing in hand. -/
theorem Flow.turn (hf : Flow retries h sent addressed) {stage : Stage} (hold : h.stage.serving)
    (hpushed : h.stage ≠ .pushed) (hhand : h.inHand = []) (hnew : stage.serving)
    (hpushed' : stage ≠ .pushed) (hhand' : Handler.inHand { h with stage := stage } = []) :
    Flow retries { h with stage := stage } sent addressed where
  fresh := by
    rintro rfl
    cases hnew
  first := by
    rintro frame rfl
    simp [Handler.inHand] at hhand'
  bound := fun _ _ => hf.bound hold hpushed
  total := by
    intro _
    have htotal := hf.total hold
    rw [hhand, Handler.backlog, if_neg hpushed] at htotal
    rw [hhand', Handler.backlog, if_neg hpushed']
    exact htotal
  upTo := hf.upTo
  once := hf.once

theorem Flow.connect (hf : Flow retries h sent addressed) (hs : h.stage = .absent) :
    Flow retries { h with stage := .pushed } sent addressed := by
  obtain ⟨hsocket, haddressed⟩ := hf.fresh hs
  have hnone : Handler.delivered { h with stage := .pushed } = [] := by
    simp [Handler.delivered, hsocket]
  refine ⟨nofun, nofun, fun _ hne => absurd rfl hne, fun _ => ?_, ?_, hf.once⟩
  · rw [hnone, haddressed]
    rfl
  · rw [hnone]
    exact List.nil_prefix

theorem Flow.subscribe (hf : Flow retries h sent addressed) (hs : h.stage = .pushed) :
    Flow retries { h with stage := .idle, next := sent.length } sent addressed := by
  have htotal := hf.total (by rw [hs]; rfl)
  have hhand : h.inHand = [] := by rw [Handler.inHand, hs]
  rw [hhand, Handler.backlog, if_pos hs] at htotal
  refine ⟨nofun, nofun, fun _ _ => Nat.le_refl _, fun _ => ?_, hf.upTo, hf.once⟩
  rw [← htotal]
  simp [Handler.backlog, Handler.inHand, Handler.delivered]

theorem Flow.receive (hf : Flow retries h sent addressed) (hs : h.stage = .idle) {msg : String}
    (hmsg : sent[h.next]? = some msg) {stage : Stage} (hnew : stage.serving)
    (hpushed : stage ≠ .pushed) (hhand : ∀ n, Handler.inHand ⟨stage, n, h.socket⟩ = [msg])
    (hfirst : ∀ frame, stage = .sending frame → frame.retry = 0) :
    Flow retries { h with stage := stage, next := h.next + 1 } sent addressed := by
  obtain ⟨hlt, hget⟩ := List.getElem?_eq_some_iff.1 hmsg
  have htotal := hf.total (by rw [hs]; rfl)
  have hnone : h.inHand = [] := by rw [Handler.inHand, hs]
  have hdrop : sent.drop h.next = msg :: sent.drop (h.next + 1) := by
    rw [List.drop_eq_getElem_cons hlt, hget]
  rw [hnone, Handler.backlog, hs, if_neg nofun, hdrop] at htotal
  refine ⟨?_, hfirst, fun _ _ => hlt, fun _ => ?_, hf.upTo, hf.once⟩
  · rintro rfl
    cases hnew
  · rw [hhand, Handler.backlog, if_neg hpushed, ← htotal]
    simp [Handler.delivered]

theorem Flow.track (hf : Flow retries h sent addressed) {id msg : String}
    (hs : h.stage = .tracking id msg) {frame : Frame} (hpayload : frame.payload = msg)
    (hretry : frame.retry = 0) :
    Flow retries { h with stage := .sending frame } sent addressed := by
  have htotal := hf.total (by rw [hs]; rfl)
  have hhand : h.inHand = [msg] := by rw [Handler.inHand, hs]
  have hbound := hf.bound (by rw [hs]; rfl) (by simp [hs])
  rw [hhand, Handler.backlog, hs, if_neg nofun] at htotal
  refine ⟨nofun, ?_, fun _ _ => hbound, fun _ => ?_, hf.upTo, hf.once⟩
  · rintro frame' heq
    rw [← Stage.sending.inj heq]
    exact hretry
  · rw [← htotal]
    simp [Handler.inHand, Handler.backlog, Handler.delivered, hpayload]

theorem Flow.transmit (hf : Flow retries h sent addressed) {frame : Frame}
    (hs : h.stage = .sending frame) :
    Flow retries { h with stage := .idle, socket := h.socket ++ [frame] } sent addressed := by
  have htotal := hf.total (by rw [hs]; rfl)
  have hhand : h.inHand = [frame.payload] := by rw [Handler.inHand, hs]
  have hbound := hf.bound (by rw [hs]; rfl) (by simp [hs])
  rw [hhand, Handler.backlog, hs, if_neg nofun] at htotal
  have hdelivered : Handler.delivered { h with stage := .idle, socket := h.socket ++ [frame] } =
      h.delivered ++ [frame.payload] := delivered_transmit h (hf.first frame hs) .idle
  refine ⟨nofun, nofun, fun _ _ => hbound, fun _ => ?_, ?_, ?_⟩
  · rw [hdelivered, ← htotal]
    simp [Handler.inHand, Handler.backlog]
  · rw [hdelivered]
    exact ⟨_, htotal⟩
  · intro hretries frame' hframe'
    rcases List.mem_append.1 hframe' with hold | hnew
    · exact hf.once hretries frame' hold
    · rw [List.mem_singleton.1 hnew]
      exact hf.first frame hs

/-- Retransmissions are not first transmissions. -/
theorem Flow.retransmit (hf : Flow true h sent addressed) (hs : h.stage = .idle)
    {frames : List Frame} (hretry : ∀ frame ∈ frames, frame.retry ≠ 0) :
    Flow true { h with socket := h.socket ++ frames } sent addressed := by
  have hdelivered := delivered_retransmit h hretry
  refine ⟨?_, hf.first, hf.bound, ?_, ?_, nofun⟩
  · intro habsent
    exact absurd (hs.symm.trans habsent) nofun
  · intro hserving
    rw [hdelivered]
    exact hf.total hserving
  · rw [hdelivered]
    exact hf.upTo

/-- A broadcast that the handler is subscribed to. -/
theorem Flow.broadcast (hf : Flow retries h sent addressed) (hpushed : h.stage ≠ .pushed)
    (habsent : h.stage ≠ .absent) (msg : String) :
    Flow retries h (sent ++ [msg]) (addressed ++ [msg]) := by
  refine ⟨fun heq => absurd heq habsent, hf.first, ?_, ?_, hf.upTo.trans (List.prefix_append ..),
    hf.once⟩
  · intro hserving hne
    have hbound := hf.bound hserving hne
    rw [List.length_append]
    omega
  · intro hserving
    have hbound := hf.bound hserving hpushed
    rw [← hf.total hserving, Handler.backlog, Handler.backlog, if_neg hpushed, if_neg hpushed,
      List.drop_append_of_le_length hbound, List.append_assoc, List.append_assoc,
      List.append_assoc]

/-- A broadcast before the handler has subscribed. -/
theorem Flow.early (hf : Flow retries h sent addressed) (hs : h.stage = .pushed) (msg : String) :
    Flow retries h (sent ++ [msg]) addressed := by
  refine ⟨hf.fresh, hf.first, fun _ hne => absurd hs hne, ?_, hf.upTo, hf.once⟩
  intro hserving
  rw [← hf.total hserving, Handler.backlog, Handler.backlog, if_pos hs, if_pos hs]

/-- A broadcast that does not concern the client. -/
theorem Flow.ignore (hf : Flow retries h sent addressed) (hs : h.stage.serving = false)
    (msg : String) : Flow retries h (sent ++ [msg]) addressed :=
  ⟨hf.fresh, hf.first, fun hserving => by simp [hs] at hserving,
    fun hserving => by simp [hs] at hserving, hf.upTo, hf.once⟩

/-- A message that is addressed to the client and does not get to the channel. -/
theorem Flow.miss (hf : Flow retries h sent addressed) (hs : h.stage.serving = false)
    (habsent : h.stage ≠ .absent) (msg : String) : Flow retries h sent (addressed ++ [msg]) :=
  ⟨fun heq => absurd heq habsent, hf.first, hf.bound, fun hserving => by simp [hs] at hserving,
    hf.upTo.trans (List.prefix_append ..), hf.once⟩

end Flow

section Steps

variable {cfg : Config} {s s' : State} {i : ClientId} {addressed : List String} {m : Addressed}
  {a : Label}

theorem flow_handleText {retries : Bool} (h : Flow retries (s.handler i) s.sent addressed)
    (hs : s.stage i = .idle) (c : Command) :
    Flow retries ((s.handleText i c).handler i) s.sent addressed := by
  cases c with
  | ack id =>
      rw [State.handleText, State.modify_handler]
      exact h
  | join room =>
      have hserving : (s.handler i).stage.serving := by
        change (s.stage i).serving = true
        rw [hs]
        rfl
      rw [State.handleText, State.goto_handler_self]
      apply h.turn hserving
      · exact fun heq => absurd (hs.symm.trans heq) nofun
      · rw [Handler.inHand, show (s.handler i).stage = .idle from hs]
      · rfl
      · exact nofun
      · rfl
  | leave room =>
      rw [State.handleText, State.leaveRoom, State.modify_handler]
      exact h
  | other => exact h

/-- A step of the handler itself. -/
theorem flow_step (h : Flow cfg.ack.enabled (s.handler i) s.sent addressed) (hk : KeepsUp s a)
    (hi : a.client = some i) (hstep : (system cfg).step s a = some s') :
    Flow cfg.ack.enabled (s'.handler i) s'.sent addressed := by
  rw [step_sent hstep hi]
  cases next_move hstep with
  | elapse | broadcast | broadcastRoom => cases hi
  | tickOff | pinged => exact h
  | connect hs =>
      cases hi
      rw [State.goto_handler_self]
      exact h.connect hs
  | subscribe hs =>
      cases hi
      rw [State.goto_handler_self, State.advance_handler_self]
      exact h.subscribe hs
  | @receive _ id msg hs hr =>
      cases hi
      rw [State.goto_handler_self, State.advance_handler_self]
      apply h.receive hs (BroadcastChannel.getElem?_of_recv_eq_value hr)
      · split_ifs <;> rfl
      · split_ifs <;> exact nofun
      · intro n
        split_ifs <;> rfl
      · intro frame heq
        split_ifs at heq
        rw [← Stage.sending.inj heq]
  | @lag _ id hs hr =>
      cases hi
      exact absurd hr (hk i id rfl hs)
  | track hs =>
      cases hi
      rw [State.goto_handler_self, State.modify_handler]
      exact h.track hs rfl rfl
  | transmit hs =>
      cases hi
      rw [State.goto_handler_self, State.send_handler_self]
      exact h.transmit hs
  | sendFails hs | timeout hs | close hs =>
      cases hi
      rw [State.goto_handler_self]
      exact h.quit rfl nofun
  | ackTick hs hack =>
      cases hi
      rw [hack] at h ⊢
      rw [State.send_handler_self, State.modify_handler]
      exact h.retransmit hs retry_ne_zero_of_mem
  | text hs =>
      cases hi
      exact flow_handleText h hs _
  | @joined _ room hs =>
      cases hi
      have hserving : (s.handler i).stage.serving := by
        change (s.stage i).serving = true
        rw [hs]
        rfl
      rw [State.goto_handler_self, State.modify_handler]
      apply h.turn hserving
      · exact fun heq => absurd (hs.symm.trans heq) nofun
      · rw [Handler.inHand, show (s.handler i).stage = .joining room from hs]
      · rfl
      · exact nofun
      · rfl
  | pong hs =>
      rw [State.modify_handler]
      exact h
  | remove hs =>
      cases hi
      rw [State.goto_handler_self]
      apply h.quit
      · split <;> rfl
      · split <;> exact nofun
  | count hs =>
      cases hi
      rw [State.goto_handler_self]
      apply h.quit
      · split_ifs <;> rfl
      · split_ifs <;> exact nofun
  | removeRoom hs =>
      cases hi
      rw [State.goto_handler_self]
      exact h.quit rfl nofun

structure Flowing (cfg : Config) (x : State × Addressed) : Prop where
  attached : Attached x.1
  flow : ∀ i, Flow cfg.ack.enabled (x.1.handler i) x.1.sent (x.2 i)

theorem Flowing.delivers {x : State × Addressed} (h : Flowing cfg x) : Delivers cfg x :=
  fun i => ⟨(h.flow i).total, (h.flow i).upTo, (h.flow i).once⟩

theorem Attached.mem_of_serving (h : Attached s) (hi : (s.stage i).serving) :
    i ∈ s.connections := by
  apply (h i).2
  cases hs : s.stage i <;> rw [hs] at hi <;> first | rfl | cases hi

theorem Attached.ne_absent (h : Attached s) (hi : i ∈ s.connections) : s.stage i ≠ .absent := by
  intro habsent
  have hinside := (h i).1 hi
  rw [habsent] at hinside
  cases hinside

theorem Flowing.broadcast (h : Flowing cfg (s, m)) (hpushed : ∀ i, s.stage i ≠ .pushed)
    (msg : String) : Flowing cfg ({ s with sent := s.sent ++ [msg] },
      fun i => if i ∈ s.connections then m i ++ [msg] else m i) := by
  refine ⟨h.attached, fun i => ?_⟩
  change Flow cfg.ack.enabled (s.handler i) (s.sent ++ [msg])
    (if i ∈ s.connections then m i ++ [msg] else m i)
  by_cases hi : i ∈ s.connections
  · rw [if_pos hi]
    exact (h.flow i).broadcast (hpushed i) (h.attached.ne_absent hi) msg
  · rw [if_neg hi]
    apply (h.flow i).ignore
    exact Bool.eq_false_iff.2 (fun hserving => hi (h.attached.mem_of_serving hserving))

theorem Flowing.broadcastRoom (h : Flowing cfg (s, m)) {room : String}
    (hroom : ∀ i, (s.stage i).serving → (s.conn i).room ≠ some room) (msg : String)
    (rooms : String → Option (List String)) : Flowing cfg ({ s with rooms := rooms },
      fun i => if i ∈ s.connections ∧ (s.conn i).room = some room then m i ++ [msg] else m i) := by
  refine ⟨h.attached, fun i => ?_⟩
  change Flow cfg.ack.enabled (s.handler i) s.sent
    (if i ∈ s.connections ∧ (s.conn i).room = some room then m i ++ [msg] else m i)
  by_cases hi : i ∈ s.connections ∧ (s.conn i).room = some room
  · rw [if_pos hi]
    refine (h.flow i).miss ?_ (h.attached.ne_absent hi.1) msg
    exact Bool.eq_false_iff.2 (fun hserving => hroom i hserving hi.2)
  · rw [if_neg hi]
    exact h.flow i

theorem Flowing.of_client (h : Flowing cfg (s, m)) (hk : KeepsUp s a) (hi : a.client = some i)
    (hstep : (system cfg).step s a = some s') : Flowing cfg (s', m) := by
  refine ⟨attached_step h.attached hstep, fun j => ?_⟩
  change Flow cfg.ack.enabled (s'.handler j) s'.sent (m j)
  by_cases hj : a.client = some j
  · exact flow_step (h.flow j) hk hj hstep
  · rw [(step_of_ne hstep hj).1, step_sent hstep hi]
    exact h.flow j

theorem flowing_step (h : Flowing cfg (s, m)) (hk : KeepsUp s a) (hc : Reaches (s, m) a)
    (hstep : (system cfg).step s a = some s') : Flowing cfg (s', address m s a s') := by
  cases a with
  | elapse d =>
      cases hstep
      exact ⟨h.attached, h.flow⟩
  | broadcast msg =>
      cases hstep
      exact h.broadcast hc msg
  | broadcastRoom room msg =>
      cases hstep
      exact h.broadcastRoom hc msg _
  | _ => exact h.of_client hk rfl hstep

theorem flowing_init : Flowing cfg (addressing cfg).init where
  attached := attached_init cfg
  flow := fun _ => ⟨fun _ => ⟨rfl, rfl⟩, nofun, nofun, nofun, List.nil_prefix, nofun⟩

/-- A client that has a message addressed to it, and whose own flow does not change, lacks it. -/
theorem not_delivers_of_addressed {m' : Addressed} {i : ClientId} {msg : String}
    (h : Flow cfg.ack.enabled (s.handler i) s.sent (m i)) (hi : (s.stage i).serving)
    (hhandler : s'.handler i = s.handler i)
    (hbacklog : (s.handler i).backlog s'.sent = (s.handler i).backlog s.sent)
    (haddressed : m' i = m i ++ [msg]) : ¬ Delivers cfg (s', m') := by
  intro hd
  have hi' : (s'.stage i).serving := by
    rw [State.stage, hhandler]
    exact hi
  have htotal : (s'.handler i).delivered ++ (s'.handler i).inHand ++
      (s'.handler i).backlog s'.sent = m' i := (hd i).1 hi'
  rw [hhandler, hbacklog, h.total hi, haddressed] at htotal
  have hlength := congrArg List.length htotal
  rw [List.length_append] at hlength
  exact absurd hlength (by simp)

theorem not_delivers_step (h : Flowing cfg (s, m)) (hc : ¬ Reaches (s, m) a)
    (hstep : (system cfg).step s a = some s') : ¬ Delivers cfg (s', address m s a s') := by
  cases next_move hstep with
  | broadcast msg =>
      obtain ⟨i, hi⟩ := not_forall.1 hc
      have hpushed : (s.handler i).stage = .pushed := not_not.1 hi
      have hserving : (s.handler i).stage.serving := by
        rw [hpushed]
        rfl
      refine not_delivers_of_addressed (h.flow i) hserving rfl ?_
        (if_pos (h.attached.mem_of_serving hserving))
      exact (if_pos hpushed).trans (if_pos hpushed).symm
  | broadcastRoom room msg =>
      obtain ⟨i, hi⟩ := not_forall.1 hc
      obtain ⟨hserving, hroom⟩ := Classical.not_imp.1 hi
      exact not_delivers_of_addressed (h.flow i) hserving rfl rfl
        (if_pos ⟨h.attached.mem_of_serving hserving, not_not.1 hroom⟩)
  | _ => exact absurd trivial hc

end Steps

/-- While no receiver lags, the clients get exactly what is addressed to them if and only if no
room with a member is broadcast to, and no broadcast falls between a connection and its
subscription. -/
theorem delivers_iff {cfg : Config} {run : List Label} {x : State × Addressed}
    (he : (addressing cfg).exec (addressing cfg).init run = some x)
    (hA : (addressing cfg).Along (fun x => KeepsUp x.1) (addressing cfg).init run) :
    (addressing cfg).Throughout (Delivers cfg) (addressing cfg).init run ↔
      (addressing cfg).Along Reaches (addressing cfg).init run := by
  refine TransitionSystem.throughout_iff_along_within (fun _ h => Flowing.delivers h) ?_ ?_
    flowing_init he hA
  · rintro ⟨s, m⟩ a y h hk hc hstep
    obtain ⟨s', hs', rfl⟩ := TransitionSystem.exists_of_observe_step hstep
    exact flowing_step h hk hc hs'
  · rintro ⟨s, m⟩ a y h - hc hstep
    obtain ⟨s', hs', rfl⟩ := TransitionSystem.exists_of_observe_step hstep
    exact not_delivers_step h hc hs'

def greeting : List Label :=
  [.connect 0 0, .subscribe 0, .broadcast "hi", .receive 0 "a", .track 0, .transmit 0 true]

theorem delivers_iff_greeting :
    (addressing .default).Throughout (Delivers .default) (addressing .default).init greeting := by
  refine (delivers_iff rfl ?_).2 ?_
  · apply TransitionSystem.along_cons nofun rfl
    apply TransitionSystem.along_cons nofun rfl
    apply TransitionSystem.along_cons nofun rfl
    refine TransitionSystem.along_cons ?_ rfl ?_
    · rintro i id ⟨⟩ -
      exact nofun
    apply TransitionSystem.along_cons nofun rfl
    apply TransitionSystem.along_cons nofun rfl
    trivial
  · apply TransitionSystem.along_cons trivial rfl
    apply TransitionSystem.along_cons trivial rfl
    refine TransitionSystem.along_cons ?_ rfl ?_
    · intro i
      rcases i with _ | i <;> exact nofun
    apply TransitionSystem.along_cons trivial rfl
    apply TransitionSystem.along_cons trivial rfl
    apply TransitionSystem.along_cons trivial rfl
    trivial

/-- A client joins a room, and what is broadcast to the room does not get to it. -/
theorem not_delivers_lobby :
    (addressing .default).Along (fun x => KeepsUp x.1) (addressing .default).init
        (joins 0 "lobby" ++ [.broadcastRoom "lobby" "hi"]) ∧
      ∃ x, (addressing .default).exec (addressing .default).init
        (joins 0 "lobby" ++ [.broadcastRoom "lobby" "hi"]) = some x ∧ ¬ Delivers .default x := by
  refine ⟨?_, _, rfl, ?_⟩
  · apply TransitionSystem.along_cons nofun rfl
    apply TransitionSystem.along_cons nofun rfl
    apply TransitionSystem.along_cons nofun rfl
    apply TransitionSystem.along_cons nofun rfl
    apply TransitionSystem.along_cons nofun rfl
    trivial
  · intro h
    exact absurd ((h 0).1 rfl) nofun

end Rszero.WebSocket
