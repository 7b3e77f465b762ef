import Rszero.JsonText
import Rszero.WebSocketUnacked

/-!
# The envelope of a message

With acknowledgements a message is put into the text of an object as it is. The frames of a run, at
first and when they are sent again, against the messages that were broadcast.
-/

namespace Rszero.WebSocket

open BroadcastChannel JsonText

/-- `format!("{{\"id\":\"{}\",\"payload\":{}}}", msg_id, payload)` -/
def envelope (msg_id payload : String) : String :=
  "\x7b\"id\":\"" ++ msg_id ++ "\",\"payload\":" ++ payload ++ "\x7d"

def Frame.text (frame : Frame) : String :=
  match frame.id with
  | some id => envelope id frame.payload
  | none => frame.payload

def isHexDigit (c : Char) : Bool := c.isDigit ∨ ('a' ≤ c ∧ c ≤ 'f')

/-- `msg-` and the first digits of a uuid -/
def IsMsgId (id : String) : Prop :=
  ∃ digits : List Char, digits.length = 8 ∧ (∀ c ∈ digits, isHexDigit c) ∧
    id = "msg-" ++ String.ofList digits

/-- The messages of `M` are broadcast, and the handlers draw their ids. -/
def Issues (M : String → Prop) (_ : State) : Label → Prop
  | .broadcast msg => M msg
  | .receive _ id => IsMsgId id
  | _ => True

/-- A step of a run sends the frame to a client, of which the map then has the entries. -/
def Sends (cfg : Config) (M : String → Prop) (frame : Frame) (unacked : Unacked) : Prop :=
  ∃ s a s' i, (system cfg).Reachable (Issues M) s ∧ Issues M s a ∧
    (system cfg).step s a = some s' ∧ unacked = (s'.conn i).unacked ∧
    frame ∈ (s'.handler i).socket.drop (s.handler i).socket.length

variable {N : Type}

def Encloses (read : List Char → N) (text id : String) (payload : Value N) : Prop :=
  ∃ fields, IsElement read text.toList (.obj fields) ∧
    fields.Perm [(utf16s "id".toList, .str (utf16s id.toList)),
      (utf16s "payload".toList, payload)]

/-- Every frame has an id that acknowledges it, and the payload that its text has is that of one
message only. -/
structure Lossless (read : List Char → N) (cfg : Config) (M : String → Prop) : Prop where
  wellFormed : ∀ frame unacked, Sends cfg M frame unacked → ∃ id u payload,
    (id, u) ∈ unacked ∧ u.payload = frame.payload ∧ M frame.payload ∧
      Encloses read frame.text id payload
  injective : ∀ frame unacked frame' unacked' id id' payload, Sends cfg M frame unacked →
    Sends cfg M frame' unacked' → Encloses read frame.text id payload →
      Encloses read frame'.text id' payload → frame.payload = frame'.payload

variable {read : List Char → N} {id msg : String} {payload : Value N}

theorem isPlain_of_isHexDigit {c : Char} (h : isHexDigit c) : isPlain c := by
  have hrange : 48 ≤ c.toNat ∧ c.toNat ≤ 57 ∨ 97 ≤ c.toNat ∧ c.toNat ≤ 102 := by
    simpa [isHexDigit, Char.isDigit, Char.le_def, UInt32.le_iff_toNat_le] using h
  refine decide_eq_true ⟨?_, ?_, ?_⟩
  · rintro rfl
    revert hrange
    decide
  · rintro rfl
    revert hrange
    decide
  · omega

theorem IsMsgId.isPlain (h : IsMsgId id) : ∀ c ∈ id.toList, isPlain c := by
  obtain ⟨digits, -, hdigits, rfl⟩ := h
  intro c hc
  rw [String.toList_append, List.mem_append] at hc
  rcases hc with hc | hc
  · have hall : ∀ c ∈ "msg-".toList, JsonText.isPlain c :=
      List.all_eq_true.1 (by decide)
    exact hall c hc
  · rw [String.toList_ofList] at hc
    exact isPlain_of_isHexDigit (hdigits c hc)

theorem encloses_envelope_iff {id' : String} (hid : IsMsgId id) :
    Encloses read (envelope id msg) id' payload ↔
      utf16s id'.toList = utf16s id.toList ∧ IsElement read msg.toList payload := by
  have htext : (envelope id msg).toList =
      '{' :: (pairText "id".toList id.toList "payload".toList msg.toList ++ ['}']) := by
    simp [envelope, pairText]
  rw [Encloses, htext, ← Value.str.injEq (N := N)]
  exact isElement_pairText_iff (List.all_eq_true.1 (by decide)) hid.isPlain
    (List.all_eq_true.1 (by decide)) (by decide)

def Entered (unacked : Unacked) (frame : Frame) : Prop :=
  ∃ id u, frame.id = some id ∧ (id, u) ∈ unacked ∧ u.payload = frame.payload

/-- The entries and the message in hand have ids as they are drawn and payloads of `M`. -/
structure Held (M : String → Prop) (h : Handler) (unacked : Unacked) : Prop where
  entries : ∀ e ∈ unacked, IsMsgId e.1 ∧ M e.2.payload
  tracking : ∀ id msg, h.stage = .tracking id msg → IsMsgId id ∧ M msg
  sending : ∀ frame, h.stage = .sending frame → Entered unacked frame

section Steps

variable {cfg : Config} {M : String → Prop} {s s' : State} {i : ClientId} {a : Label}
  {h : Handler} {unacked unacked' : Unacked}

/-- A handler with nothing in hand. -/
theorem Held.of_phase (hx : ∀ e ∈ unacked, IsMsgId e.1 ∧ M e.2.payload) (hp : h.stage.phase = 0) :
    Held M h unacked where
  entries := hx
  tracking := by
    intro id msg hs
    rw [hs] at hp
    cases hp
  sending := by
    intro frame hs
    rw [hs] at hp
    cases hp

theorem Held.track (hx : Held M h unacked) {id msg : String} (hs : h.stage = .tracking id msg)
    (now : ℕ) :
    Held M { h with stage := .sending ⟨some id, msg, 0, now⟩ }
      (Unacked.insert unacked id ⟨msg, 0, now⟩) where
  entries := by
    intro e he
    rcases List.mem_cons.1 he with rfl | hold
    · exact hx.tracking id msg hs
    · exact hx.entries e (List.mem_of_mem_filter hold)
  tracking := nofun
  sending := by
    intro frame hframe
    rw [← Stage.sending.inj hframe]
    exact ⟨id, _, rfl, List.mem_cons_self, rfl⟩

theorem retransmit_payload {ack : AckConfig} {now : ℕ} {e e' : String × UnackedMessage}
    (he : retransmit ack now e = some e') : e'.2.payload = e.2.payload := by
  unfold retransmit at he
  split_ifs at he <;> rw [← Option.some.inj he]

/-- What a tick sends has the entry that the tick leaves. -/
theorem entered_retransmission {ack : AckConfig} {now : ℕ} {e : String × UnackedMessage}
    {frame : Frame} (he : e ∈ unacked) (hframe : retransmission ack now e = some frame) :
    Entered (unacked.filterMap (retransmit ack now)) frame := by
  unfold retransmission at hframe
  split_ifs at hframe with hdue hmax
  rw [← Option.some.inj hframe]
  have hkept : retransmit ack now e =
      some (e.1, { e.2 with retry_count := e.2.retry_count + 1, sent_at := now }) := by
    rw [retransmit, if_pos hdue, if_neg hmax]
  exact ⟨e.1, _, rfl, List.mem_filterMap.2 ⟨e, he, hkept⟩, rfl⟩

structure Turned (M : String → Prop) (h h' : Handler) (unacked' : Unacked) : Prop where
  entered : ∀ frame ∈ h'.socket.drop h.socket.length, Entered unacked' frame
  held : Held M h' unacked'

theorem Turned.silent {h' : Handler} (hsocket : h'.socket = h.socket) (hx : Held M h' unacked') :
    Turned M h h' unacked' where
  entered := by
    rw [hsocket, List.drop_length]
    exact nofun
  held := hx

theorem Turned.send {h' : Handler} {frames : List Frame}
    (hsocket : h'.socket = h.socket ++ frames) (hframes : ∀ frame ∈ frames, Entered unacked' frame)
    (hx : Held M h' unacked') : Turned M h h' unacked' where
  entered := by
    rw [hsocket, List.drop_left]
    exact hframes
  held := hx

theorem turned_handleText (hmem : i ∈ s.connections)
    (hx : Held M (s.handler i) (s.conn i).unacked) (hs : s.stage i = .idle) (c : Command) :
    Turned M (s.handler i) ((s.handleText i c).handler i)
      ((s.handleText i c).conn i).unacked := by
  have hphase : (s.handler i).stage.phase = 0 := by
    rw [show (s.handler i).stage = .idle from hs]
    rfl
  cases c with
  | ack id =>
      rw [State.handleText, State.modify_handler, State.modify_conn_self _ _ hmem]
      exact .silent rfl
        (.of_phase (fun e he => hx.entries e (List.mem_of_mem_filter he)) hphase)
  | join room =>
      rw [State.handleText, State.goto_handler_self, State.goto_conn]
      exact .silent rfl (.of_phase hx.entries rfl)
  | leave room =>
      rw [State.handleText, State.leaveRoom, State.modify_handler,
        State.modify_conn_self _ _ hmem]
      split_ifs <;> exact .silent rfl hx
  | other => exact .silent rfl hx

/-- A step of the handler itself. -/
theorem turned_step (hack : cfg.ack.enabled) (ha : Attached s) (hsent : ∀ msg ∈ s.sent, M msg)
    (hx : Held M (s.handler i) (s.conn i).unacked) (hissue : Issues M s a)
    (hi : a.client = some i) (hstep : (system cfg).step s a = some s') :
    Turned M (s.handler i) (s'.handler i) (s'.conn i).unacked := by
  have hmem (hs : (s.stage i).inside) : i ∈ s.connections := (ha i).2 hs
  cases next_move hstep with
  | elapse | broadcast | broadcastRoom => cases hi
  | tickOff | pinged => exact .silent rfl hx
  | connect hs =>
      cases hi
      rw [State.goto_handler_self, State.goto_conn]
      change Turned _ _ _ (Function.update s.conn i ⟨_, none, []⟩ i).unacked
      rw [Function.update_self]
      exact .silent rfl (.of_phase nofun rfl)
  | subscribe hs =>
      cases hi
      rw [State.goto_handler_self, State.advance_handler_self]
      exact .silent rfl (.of_phase hx.entries rfl)
  | @receive _ id msg hs hr =>
      cases hi
      rw [State.goto_handler_self, State.advance_handler_self, if_pos hack]
      have hmsg := hsent msg (List.mem_of_getElem? (getElem?_of_recv_eq_value hr))
      refine .silent rfl ⟨hx.entries, ?_, nofun⟩
      intro id' msg' heq
      obtain ⟨rfl, rfl⟩ := Stage.tracking.inj heq
      exact ⟨hissue, hmsg⟩
  | lag hs hr =>
      cases hi
      rw [State.advance_handler_self]
      exact .silent rfl ⟨hx.entries, hx.tracking, hx.sending⟩
  | @track _ id msg hs =>
      cases hi
      rw [State.goto_handler_self, State.modify_handler, State.goto_conn,
        State.modify_conn_self _ _ (hmem (by rw [hs]; rfl))]
      exact .silent rfl (hx.track hs s.now)
  | @transmit _ frame hs =>
      cases hi
      rw [State.goto_handler_self, State.send_handler_self]
      refine .send rfl ?_ (.of_phase hx.entries rfl)
      intro f hf
      rw [List.mem_singleton.1 hf]
      exact hx.sending frame hs
  | sendFails hs | timeout hs | close hs =>
      cases hi
      rw [State.goto_handler_self]
      exact .silent rfl (.of_phase hx.entries rfl)
  | @ackTick _ iter hs _ hi' =>
      cases hi
      rw [State.send_handler_self, State.modify_handler, State.send_conn,
        State.modify_conn_self _ _ hi']
      refine .send rfl ?_ (.of_phase ?_ ?_)
      · intro frame hframe
        obtain ⟨e, he, hsent⟩ := List.mem_filterMap.1 hframe
        exact entered_retransmission ((iter.perm _).mem_iff.1 he) hsent
      · intro e' he'
        obtain ⟨e, he, hkept⟩ := List.mem_filterMap.1 he'
        rw [retransmit_key hkept, retransmit_payload hkept]
        exact hx.entries e he
      · rw [show (s.handler i).stage = .idle from hs]
        rfl
  | @text _ value hs =>
      cases hi
      exact turned_handleText (hmem (by rw [hs]; rfl)) hx hs _
  | @joined _ room hs =>
      cases hi
      rw [State.goto_handler_self, State.modify_handler, State.goto_conn,
        State.modify_conn_self _ _ (hmem (by rw [hs]; rfl))]
      exact .silent rfl (.of_phase hx.entries rfl)
  | pong hs =>
      cases hi
      rw [State.modify_handler, State.modify_conn_self _ _ (hmem (by rw [hs]; rfl))]
      exact .silent rfl hx
  | remove hs =>
      cases hi
      rw [State.goto_handler_self]
      refine .silent rfl (.of_phase hx.entries ?_)
      split <;> rfl
  | count hs =>
      cases hi
      rw [State.goto_handler_self]
      refine .silent rfl (.of_phase hx.entries ?_)
      split_ifs <;> rfl
  | removeRoom hs =>
      cases hi
      rw [State.goto_handler_self]
      exact .silent rfl (.of_phase hx.entries rfl)

structure Sound (M : String → Prop) (s : State) : Prop where
  attached : Attached s
  sent : ∀ msg ∈ s.sent, M msg
  held : ∀ i, Held M (s.handler i) (s.conn i).unacked

theorem Sound.turned (hx : Sound M s) (hack : cfg.ack.enabled) (hissue : Issues M s a)
    (hstep : (system cfg).step s a = some s') (i : ClientId) :
    Turned M (s.handler i) (s'.handler i) (s'.conn i).unacked := by
  by_cases hi : a.client = some i
  · exact turned_step hack hx.attached hx.sent (hx.held i) hissue hi hstep
  · obtain ⟨hhandler, hconn⟩ := step_of_ne hstep hi
    rw [hhandler, hconn]
    exact .silent rfl (hx.held i)

theorem Sound.step (hx : Sound M s) (hack : cfg.ack.enabled) (hissue : Issues M s a)
    (hstep : (system cfg).step s a = some s') : Sound M s' where
  attached := attached_step hx.attached hstep
  sent := by
    cases hclient : a.client with
    | some i =>
        rw [step_sent hstep hclient]
        exact hx.sent
    | none =>
        cases next_move hstep with
        | elapse | broadcastRoom => exact hx.sent
        | broadcast msg =>
            intro m hm
            rcases List.mem_append.1 hm with hold | hnew
            · exact hx.sent m hold
            · rw [List.mem_singleton.1 hnew]
              exact hissue
        | _ => cases hclient
  held := by
    intro i
    exact (hx.turned hack hissue hstep i).held

theorem sound_of_reachable (hack : cfg.ack.enabled)
    (hr : (system cfg).Reachable (Issues M) s) : Sound M s := by
  apply hr.invariant
  · exact ⟨attached_init cfg, nofun, fun _ => .of_phase nofun rfl⟩
  · intro s a s' hx hissue hstep
    exact hx.step hack hissue hstep

theorem exists_of_sends (hack : cfg.ack.enabled) {frame : Frame}
    (h : Sends cfg M frame unacked) : ∃ id u, frame.id = some id ∧ (id, u) ∈ unacked ∧
      u.payload = frame.payload ∧ IsMsgId id ∧ M frame.payload := by
  obtain ⟨s, a, s', i, hr, hissue, hstep, rfl, hframe⟩ := h
  have hturned := (sound_of_reachable hack hr).turned hack hissue hstep i
  obtain ⟨id, u, hid, hu, hpayload⟩ := hturned.entered frame hframe
  obtain ⟨hmsgId, hmsg⟩ := hturned.held.entries (id, u) hu
  rw [hpayload] at hmsg
  exact ⟨id, u, hid, hu, hpayload, hmsgId, hmsg⟩

def delivery (msg : String) : List Label :=
  [.connect 0 0, .subscribe 0, .broadcast msg, .receive 0 "msg-00000000", .track 0]

theorem exists_sends (hack : cfg.ack.enabled) {msg : String} (hmsg : M msg) :
    ∃ frame unacked, Sends cfg M frame unacked ∧ frame.payload = msg := by
  obtain ⟨heartbeat, enabled, timeout, max_retries⟩ := cfg
  obtain rfl : enabled = true := hack
  have hid : IsMsgId "msg-00000000" :=
    ⟨['0', '0', '0', '0', '0', '0', '0', '0'], rfl, List.all_eq_true.1 (by decide), by decide⟩
  have hissues : ∀ a ∈ delivery msg, ∀ t, Issues M t a := by
    simp [delivery, Issues, hmsg, hid]
  exact ⟨⟨some "msg-00000000", msg, 0, 0⟩, [("msg-00000000", ⟨msg, 0, 0⟩)],
    ⟨_, .transmit 0 true, _, 0, .exec_of_mem _ .init hissues rfl, trivial, rfl, rfl,
      List.mem_singleton_self _⟩, rfl⟩

end Steps

section Frames

variable {cfg : Config} {M : String → Prop}

theorem encloses_of_sends (read : List Char → N) (hack : cfg.ack.enabled) {frame : Frame}
    {unacked : Unacked} (h : Sends cfg M frame unacked) :
    ∃ id u, (id, u) ∈ unacked ∧ u.payload = frame.payload ∧ M frame.payload ∧
      ∀ id' (payload : Value N), Encloses read frame.text id' payload ↔
        utf16s id'.toList = utf16s id.toList ∧ IsElement read frame.payload.toList payload := by
  obtain ⟨id, u, hid, hu, hpayload, hmsgId, hmsg⟩ := exists_of_sends hack h
  refine ⟨id, u, hu, hpayload, hmsg, ?_⟩
  intro id' payload
  rw [Frame.text, hid]
  exact encloses_envelope_iff hmsgId

theorem isElement_of_encloses (hack : cfg.ack.enabled) {frame : Frame} {unacked : Unacked}
    {id : String} {payload : Value N} (h : Sends cfg M frame unacked)
    (he : Encloses read frame.text id payload) : IsElement read frame.payload.toList payload := by
  obtain ⟨_, _, -, -, -, hiff⟩ := encloses_of_sends read hack h
  exact ((hiff id payload).1 he).2

/-- A message whose frame is an object of the two fields is a JSON text. -/
theorem Lossless.isElement (h : Lossless read cfg M) (hack : cfg.ack.enabled) (msg : String)
    (hmsg : M msg) : ∃ v, IsElement read msg.toList v := by
  obtain ⟨frame, unacked, hsends, rfl⟩ := exists_sends hack hmsg
  obtain ⟨id, u, payload, -, -, -, he⟩ := h.wellFormed frame unacked hsends
  exact ⟨payload, isElement_of_encloses hack hsends he⟩

/-- The envelope is lossless when every message that is broadcast is itself a JSON text, and no two
of them are texts of the same value. -/
theorem lossless_iff (read : List Char → N) (hack : cfg.ack.enabled) :
    Lossless read cfg M ↔ (∀ m, M m → ∃ v, IsElement read m.toList v) ∧
      ∀ m m' v, M m → M m' → IsElement read m.toList v → IsElement read m'.toList v → m = m' := by
  constructor
  · intro h
    refine ⟨fun m hm => h.isElement hack m hm, ?_⟩
    intro m m' v hm hm' hv hv'
    obtain ⟨frame, unacked, hsends, rfl⟩ := exists_sends hack hm
    obtain ⟨frame', unacked', hsends', rfl⟩ := exists_sends hack hm'
    obtain ⟨id, _, -, -, -, hiff⟩ := encloses_of_sends read hack hsends
    obtain ⟨id', _, -, -, -, hiff'⟩ := encloses_of_sends read hack hsends'
    exact h.injective frame unacked frame' unacked' id id' v hsends hsends'
      ((hiff id v).2 ⟨rfl, hv⟩) ((hiff' id' v).2 ⟨rfl, hv'⟩)
  · rintro ⟨hvalues, hdistinct⟩
    constructor
    · intro frame unacked hsends
      obtain ⟨id, u, hu, hpayload, hmsg, hiff⟩ := encloses_of_sends read hack hsends
      obtain ⟨v, hv⟩ := hvalues frame.payload hmsg
      exact ⟨id, u, v, hu, hpayload, hmsg, (hiff id v).2 ⟨rfl, hv⟩⟩
    · intro frame unacked frame' unacked' id id' payload hsends hsends' he he'
      obtain ⟨_, _, -, -, hmsg, -⟩ := encloses_of_sends read hack hsends
      obtain ⟨_, _, -, -, hmsg', -⟩ := encloses_of_sends read hack hsends'
      exact hdistinct frame.payload frame'.payload payload hmsg hmsg'
        (isElement_of_encloses hack hsends he) (isElement_of_encloses hack hsends' he')

theorem lossless_iff_true :
    Lossless (fun digits => digits) .default (fun m => m = "true") := by
  refine (lossless_iff _ rfl).2 ⟨?_, ?_⟩
  · rintro m rfl
    exact ⟨.bool true, IsValue.true.isElement⟩
  · rintro m m' v rfl rfl - -
    rfl

theorem not_lossless : ¬ Lossless (fun digits => digits) .default (fun _ => True) := by
  intro h
  obtain ⟨v, hv⟩ := h.isElement rfl "hello" trivial
  exact absurd (hv.opens_of_cons rfl) (by decide)

end Frames

end Rszero.WebSocket
