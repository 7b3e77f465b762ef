import Rszero.WebSocketUnacked

/-!
# Acknowledgements

Every step of a run against the history of each connection. A handler that is in its loop sends
what was broadcast since it subscribed, in order, and sends it again while the client does not
acknowledge it and the retries last.
-/

namespace Rszero.WebSocket

open BroadcastChannel

def Exchange.note (cfg : Config) (s : State) (i : ClientId) (e : Exchange) : Label → Exchange
  | .broadcast msg =>
      if (s.stage i).serving ∧ s.stage i ≠ .pushed then
        { e with addressed := e.addressed ++ [msg] }
      else e
  | .receive j id => if j = i then e.receive id else e
  | .track j => if j = i then e.turn else e
  | .transmit j _ => if j = i then e.turn else e
  | .text j value =>
      match command cfg.ack.enabled value with
      | .ack id => if j = i then e.acknowledge id (s.handler i).socket.length else e
      | _ => e
  | _ => e

abbrev Record := ClientId → Exchange

def recording (cfg : Config) : TransitionSystem (State × Record) Label :=
  (system cfg).observe (fun _ => ⟨[], [], [], 0⟩) (fun m s a _ => fun i => (m i).note cfg s i a)

/-- No receiver lags, and no handler draws an id twice. -/
def Distinct (x : State × Record) (a : Label) : Prop :=
  KeepsUp x.1 a ∧ ∀ i id, a = .receive i id → id ∉ (x.2 i).ids

/-- While the handler is in its loop, the messages broadcast since its subscription have been sent
in order, but for the one in hand and those in the channel; every third turn sends one, and a
handler that waits for a message has sent them all. The transmissions of an id are as they should
be, and none follows the ack of an id that had been sent. -/
structure Acknowledged (ack : AckConfig) (s : State) (i : ClientId) (e : Exchange) : Prop where
  sent : (s.stage i).serving →
    (s.handler i).delivered ++ (s.handler i).inHand ++ (s.handler i).backlog s.sent = e.addressed
  turns : (s.stage i).serving → (s.handler i).delivered.length = e.turns / 3
  waiting : s.stage i = .idle →
    recv State.channelCapacity s.sent true (s.handler i).next = .pending →
      (s.handler i).delivered = e.addressed
  identified : ∀ frame ∈ (s.handler i).socket, ∃ id ∈ e.ids, frame.id = some id
  transmitted : ∀ id, Transmitted ack ((s.handler i).framesOf id)
  acked : ∀ x ∈ e.acks, (∃ frame ∈ (s.handler i).socket.take x.2, frame.id = some x.1) →
    ∀ frame ∈ (s.handler i).socket.drop x.2, frame.id ≠ some x.1
  retries : ∀ entry ∈ (s.conn i).unacked, entry.2.retry_count ≤ ack.max_retries

structure Conversing (cfg : Config) (s : State) (i : ClientId) (e : Exchange) : Prop where
  flow : Flow true (s.handler i) s.sent e.addressed
  exchanged : Exchanged cfg.ack (s.handler i) (s.conn i).unacked e

section Steps

variable {cfg : Config} {s s' : State} {i : ClientId} {e : Exchange} {a : Label}

theorem Conversing.isAcknowledged (h : Conversing cfg s i e) : Acknowledged cfg.ack s i e where
  sent := h.flow.total
  turns := by
    intro hserving
    have hphase : (s.handler i).stage.phase < 3 := by
      cases (s.handler i).stage <;> simp [Stage.phase]
    have hpaced := h.exchanged.paced hserving
    omega
  waiting := by
    intro hs hr
    have htotal := h.flow.total (show (s.stage i).serving by rw [hs]; rfl)
    have hhand : (s.handler i).inHand = [] := by
      rw [Handler.inHand, show (s.handler i).stage = .idle from hs]
    have hbacklog : (s.handler i).backlog s.sent = [] := by
      have hpushed : (s.handler i).stage ≠ .pushed := by
        rw [show (s.handler i).stage = .idle from hs]
        simp
      rw [Handler.backlog, if_neg hpushed, List.drop_eq_nil_iff]
      exact length_le_of_recv_eq_pending hr
    rwa [hhand, hbacklog, List.append_nil, List.append_nil] at htotal
  identified := h.exchanged.known
  transmitted := h.exchanged.transmitted
  acked := fun x hx hsent => ((h.exchanged.acked x hx).2 hsent).1
  retries := fun entry hentry =>
    (h.exchanged.tracked entry.1 entry.2 (mem_entries_iff.2 hentry)).retries

theorem note_addressed (hi : a.client = some i) :
    (e.note cfg s i a).addressed = e.addressed := by
  cases a with
  | broadcast => cases hi
  | receive | track | transmit =>
      simp only [Exchange.note]
      split_ifs <;> rfl
  | text j value =>
      simp only [Exchange.note]
      split
      · split_ifs <;> rfl
      · rfl
  | _ => rfl

theorem exchanged_handleText (hmem : i ∈ s.connections)
    (h : Exchanged cfg.ack (s.handler i) (s.conn i).unacked e) (hs : s.stage i = .idle)
    (value : Option Json) :
    Exchanged cfg.ack ((s.handleText i (command cfg.ack.enabled value)).handler i)
      ((s.handleText i (command cfg.ack.enabled value)).conn i).unacked
      (e.note cfg s i (.text i value)) := by
  simp only [Exchange.note]
  cases command cfg.ack.enabled value with
  | ack id =>
      rw [State.handleText, State.modify_handler, State.modify_conn_self _ _ hmem]
      exact h.acknowledge hs id
  | join room =>
      rw [State.handleText, State.goto_handler_self, State.goto_conn]
      apply h.move
      · rw [show (s.handler i).stage = .idle from hs]
        rfl
      · rw [show (s.handler i).stage = .idle from hs]
        rfl
      · rfl
      · rfl
  | leave room =>
      rw [State.handleText, State.leaveRoom, State.modify_handler,
        State.modify_conn_self _ _ hmem]
      split_ifs <;> exact h
  | other => exact h

/-- A step of the handler itself. -/
theorem exchanged_step (hack : cfg.ack.enabled) (ha : Attached s)
    (h : Exchanged cfg.ack (s.handler i) (s.conn i).unacked e)
    (hk : KeepsUp s a) (hd : ∀ id, a = .receive i id → id ∉ e.ids) (hi : a.client = some i)
    (hstep : (system cfg).step s a = some s') :
    Exchanged cfg.ack (s'.handler i) (s'.conn i).unacked (e.note cfg s i a) := by
  have hmem (hs : (s.stage i).inside) : i ∈ s.connections := (ha i).2 hs
  cases next_move hstep with
  | elapse | broadcast | broadcastRoom => cases hi
  | tickOff | pinged => exact h
  | connect hs =>
      cases hi
      rw [State.goto_handler_self, State.goto_conn]
      change Exchanged _ _ (Function.update s.conn i ⟨_, none, []⟩ i).unacked e
      rw [Function.update_self]
      exact h.connect hs
  | subscribe hs =>
      cases hi
      rw [State.goto_handler_self, State.advance_handler_self]
      apply h.move
      · rw [show (s.handler i).stage = .pushed from hs]
        rfl
      · rw [show (s.handler i).stage = .pushed from hs]
        rfl
      · rfl
      · rfl
  | @receive _ id msg hs hr =>
      cases hi
      rw [State.goto_handler_self, State.advance_handler_self, if_pos hack]
      rw [Exchange.note, if_pos rfl]
      exact h.receive hs (hd id rfl) msg _
  | @lag _ id hs hr =>
      cases hi
      exact absurd hr (hk i id rfl hs)
  | @track _ id msg hs =>
      cases hi
      rw [State.goto_handler_self, State.modify_handler, State.goto_conn,
        State.modify_conn_self _ _ (hmem (by rw [hs]; rfl)), Exchange.note, if_pos rfl]
      exact h.track hs s.now
  | transmit hs =>
      cases hi
      rw [State.goto_handler_self, State.send_handler_self, Exchange.note, if_pos rfl]
      exact h.transmit hs
  | sendFails hs =>
      cases hi
      rw [State.goto_handler_self, Exchange.note, if_pos rfl]
      exact h.quit .leaving rfl nofun _
  | timeout hs | close hs =>
      cases hi
      rw [State.goto_handler_self]
      exact h.quit .leaving rfl nofun e.turns
  | @ackTick _ iter hs _ hi' =>
      cases hi
      rw [State.send_handler_self, State.modify_handler, State.send_conn,
        State.modify_conn_self _ _ hi']
      exact h.tick hs iter s.now
  | @text _ value hs =>
      cases hi
      exact exchanged_handleText (hmem (by rw [hs]; rfl)) h hs value
  | @joined _ room hs =>
      cases hi
      rw [State.goto_handler_self, State.modify_handler, State.goto_conn,
        State.modify_conn_self _ _ (hmem (by rw [hs]; rfl))]
      apply h.move
      · rw [show (s.handler i).stage = .joining room from hs]
        rfl
      · rw [show (s.handler i).stage = .joining room from hs]
        rfl
      · rfl
      · rfl
  | pong hs =>
      cases hi
      rw [State.modify_handler, State.modify_conn_self _ _ (hmem (by rw [hs]; rfl))]
      exact h
  | remove hs =>
      cases hi
      rw [State.goto_handler_self]
      refine h.quit _ ?_ ?_ e.turns
      · split <;> rfl
      · split <;> exact nofun
  | count hs =>
      cases hi
      rw [State.goto_handler_self]
      refine h.quit _ ?_ ?_ e.turns
      · split_ifs <;> rfl
      · split_ifs <;> exact nofun
  | removeRoom hs =>
      cases hi
      rw [State.goto_handler_self]
      exact h.quit .gone rfl nofun e.turns

/-- A broadcast. -/
theorem flow_heard (ha : Attached s) (h : Flow true (s.handler i) s.sent e.addressed)
    (msg : String) :
    Flow true (s.handler i) (s.sent ++ [msg]) (e.note cfg s i (.broadcast msg)).addressed := by
  by_cases hserving : (s.stage i).serving
  · by_cases hpushed : s.stage i = .pushed
    · rw [Exchange.note, if_neg (fun hc => hc.2 hpushed)]
      exact h.early hpushed msg
    · rw [Exchange.note, if_pos ⟨hserving, hpushed⟩]
      exact h.broadcast hpushed (ha.ne_absent (ha.mem_of_serving hserving)) msg
  · rw [Exchange.note, if_neg (fun hc => hserving hc.1)]
    exact h.ignore (Bool.eq_false_iff.2 hserving) msg

theorem exchanged_broadcast (h : Exchanged cfg.ack (s.handler i) (s.conn i).unacked e)
    (msg : String) :
    Exchanged cfg.ack (s.handler i) (s.conn i).unacked (e.note cfg s i (.broadcast msg)) := by
  simp only [Exchange.note]
  split_ifs
  · exact ⟨h.fresh, h.known, h.keys, h.unique, h.transmitted, h.tracked, h.counted, h.paced,
      h.received, h.hand, h.acked⟩
  · exact h

/-- A step of another handler, or one that concerns none. -/
theorem conversing_of_ne (ha : Attached s) (h : Conversing cfg s i e)
    (hi : a.client ≠ some i) (hstep : (system cfg).step s a = some s') :
    Conversing cfg s' i (e.note cfg s i a) := by
  obtain ⟨hhandler, hconn⟩ := step_of_ne hstep hi
  have hne {j : ClientId} (hj : some j ≠ some i) : j ≠ i := fun heq => hj (congrArg some heq)
  have hsame (hnote : e.note cfg s i a = e) (hsent : s'.sent = s.sent) :
      Conversing cfg s' i (e.note cfg s i a) := by
    rw [hnote]
    refine ⟨?_, ?_⟩
    · rw [hhandler, hsent]
      exact h.flow
    · rw [hhandler, hconn]
      exact h.exchanged
  cases a with
  | elapse d | broadcastRoom room msg =>
      cases hstep
      exact hsame rfl rfl
  | broadcast msg =>
      cases hstep
      exact ⟨flow_heard ha h.flow msg, exchanged_broadcast h.exchanged msg⟩
  | receive | track | transmit => exact hsame (if_neg (hne hi)) (step_sent hstep rfl)
  | text j value =>
      refine hsame ?_ (step_sent hstep rfl)
      simp only [Exchange.note, if_neg (hne hi)]
      split <;> rfl
  | _ => exact hsame rfl (step_sent hstep rfl)

theorem conversing_step (hack : cfg.ack.enabled) (ha : Attached s) (h : Conversing cfg s i e)
    (hk : KeepsUp s a) (hd : ∀ id, a = .receive i id → id ∉ e.ids)
    (hstep : (system cfg).step s a = some s') : Conversing cfg s' i (e.note cfg s i a) := by
  by_cases hi : a.client = some i
  · have hflow : Flow cfg.ack.enabled (s.handler i) s.sent e.addressed := by
      rw [hack]
      exact h.flow
    refine ⟨?_, exchanged_step hack ha h.exchanged hk hd hi hstep⟩
    rw [note_addressed hi, ← hack]
    exact flow_step hflow hk hi hstep
  · exact conversing_of_ne ha h hi hstep

/-- An ack changes nothing but the entry of its id. -/
theorem ack_entries {value : Option Json} {id : String}
    (hc : command cfg.ack.enabled value = .ack id)
    (hstep : (system cfg).step s (.text i value) = some s') {j : ClientId} {id' : String}
    (hne : (j, id') ≠ (i, id)) :
    Unacked.entries (s'.conn j).unacked id' = Unacked.entries (s.conn j).unacked id' := by
  by_cases hj : j = i
  · subst hj
    have hid : id' ≠ id := fun heq => hne (by rw [heq])
    cases next_move hstep with
    | text hs =>
        rw [hc, State.handleText]
        rcases s.modify_cases j (fun c => { c with unacked := Unacked.remove c.unacked id }) with
          ⟨h, -⟩ | ⟨-, hmem⟩
        · rw [h]
        · rw [State.modify_conn_self _ _ hmem]
          exact entries_remove_of_ne hid
  · rw [(step_of_ne hstep (fun h => hj (Option.some.inj h).symm)).2]

end Steps

/-- In a run without lag and with distinct ids, every message gets to the clients that are
subscribed, under an id of its own, at most as often as the retries allow, with more than the
timeout between two transmissions and none after its ack; and an ack changes the entry of its id
only. -/
theorem acknowledged {cfg : Config} (hack : cfg.ack.enabled) {run : List Label}
    (hA : (recording cfg).Along Distinct (recording cfg).init run) :
    (recording cfg).Throughout (fun x => ∀ i, Acknowledged cfg.ack x.1 i (x.2 i))
        (recording cfg).init run ∧
      ∀ s s' i value id, command cfg.ack.enabled value = .ack id →
        (system cfg).step s (.text i value) = some s' → ∀ j id', (j, id') ≠ (i, id) →
          Unacked.entries (s'.conn j).unacked id' = Unacked.entries (s.conn j).unacked id' := by
  refine ⟨?_, fun s s' i value id hc hstep j id' hne => ack_entries hc hstep hne⟩
  have hgood : ∀ x a y, (Attached x.1 ∧ ∀ i, Conversing cfg x.1 i (x.2 i)) → Distinct x a →
      (recording cfg).step x a = some y → Attached y.1 ∧ ∀ i, Conversing cfg y.1 i (y.2 i) := by
    rintro ⟨s, m⟩ a y ⟨ha, hx⟩ ⟨hk, hd⟩ hstep
    obtain ⟨s', hs', rfl⟩ := TransitionSystem.exists_of_observe_step hstep
    refine ⟨attached_step ha hs', fun i => ?_⟩
    exact conversing_step hack ha (hx i) hk (fun id => hd i id) hs'
  refine TransitionSystem.throughout_of_along ?_ hgood ?_ hA
  · rintro x ⟨-, hx⟩ i
    exact (hx i).isAcknowledged
  · refine ⟨attached_init cfg, fun i => ⟨?_, ?_⟩⟩
    · exact ⟨fun _ => ⟨rfl, rfl⟩, nofun, nofun, nofun, List.nil_prefix, nofun⟩
    · exact ⟨fun _ => ⟨rfl, rfl⟩, nofun, fun _ _ => rfl, fun _ => Nat.zero_le _,
        fun _ => Transmitted.nil _, nofun, nofun, nofun, nofun, nofun, nofun⟩

def ackText (id : String) : Option Json := some (.obj [("ack", .str id)])

def inOrder : MapOrder := ⟨fun entries => entries, fun _ => .refl _⟩

def overdue : List Label :=
  greeting ++ [.elapse 5000000001, .ackTick 0 inOrder, .text 0 (ackText "a")]

theorem acknowledged_overdue :
    (recording .default).Throughout (fun x => ∀ i, Acknowledged Config.default.ack x.1 i (x.2 i))
      (recording .default).init overdue := by
  refine (acknowledged rfl ?_).1
  apply TransitionSystem.along_cons ⟨nofun, nofun⟩ rfl
  apply TransitionSystem.along_cons ⟨nofun, nofun⟩ rfl
  apply TransitionSystem.along_cons ⟨nofun, nofun⟩ rfl
  refine TransitionSystem.along_cons ⟨?_, ?_⟩ rfl ?_
  · rintro i id ⟨⟩ -
    exact nofun
  · rintro i id ⟨⟩
    exact nofun
  apply TransitionSystem.along_cons ⟨nofun, nofun⟩ rfl
  apply TransitionSystem.along_cons ⟨nofun, nofun⟩ rfl
  apply TransitionSystem.along_cons ⟨nofun, nofun⟩ rfl
  apply TransitionSystem.along_cons ⟨nofun, nofun⟩ rfl
  apply TransitionSystem.along_cons ⟨nofun, nofun⟩ rfl
  trivial

end Rszero.WebSocket
