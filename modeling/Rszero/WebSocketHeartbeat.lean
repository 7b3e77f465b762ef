import Rszero.WebSocket

/-!
# The heartbeat

A handler pings its client at every tick, and at the same time compares the seconds that the clock
shows with those of the last answer. Whom it last heard from when, and since when its own next step
has been due, is a history of the calls. With a clock that runs and a handler that is late by no
more than `lag`, no client that answers in time is dropped, and no silent one stays.
-/

namespace Rszero.WebSocket

/-- `interval` panics when its period is zero. -/
structure Period where
  nanos : ℕ
  pos : 0 < nanos

/-- `duration_since(UNIX_EPOCH).as_secs()`, on a clock that was at `epoch` when the run began. -/
def secsAt (epoch now : ℕ) : ℕ := (epoch + now) / 1000000000

def Stage.looping : Stage → Bool
  | .idle | .tracking .. | .sending _ | .joining _ => true
  | _ => false

theorem inside_of_looping {stage : Stage} (h : stage.looping) : stage.inside := by
  cases stage <;> first | rfl | cases h

/-- When the client was last heard of, and when the next step of the handler is due: to subscribe,
to ping, or to remove the connection. -/
structure Watch where
  contact : ℕ
  due : ℕ

/-- The first tick of an interval is due at once, and each other a period after the one before. -/
def Watch.note (period : Period) (w : Watch) (s s' : State) (i : ClientId) : Label → Watch
  | .connect .. => ⟨s.now, s.now⟩
  | .subscribe _ => { w with due := s.now }
  | .pong .. => { w with contact := s.now }
  | .ping .. => { w with due := if s'.stage i = .leaving then s.now else w.due + period.nanos }
  | _ => if s'.stage i = .leaving then { w with due := s.now } else w

/-- The history follows the step only when the handler leaves its loop. -/
def Label.unwatched : Label → Bool
  | .connect .. | .subscribe _ | .pong .. | .ping .. => false
  | _ => true

abbrev Watches := ClientId → Watch

def watching (cfg : Config) (period : Period) : TransitionSystem (State × Watches) Label :=
  (system cfg).observe (fun _ => ⟨0, 0⟩)
    (fun w s a s' i => if a.client = some i then (w i).note period s s' i a else w i)

/-- What the handler takes for the time is the time. -/
def ReadsClock (epoch : ℕ) (i : ClientId) (x : State × Watches) : Label → Prop
  | .connect j secs | .pong j secs | .ping j secs _ => j = i → secs = secsAt epoch x.1.now
  | _ => True

instance (epoch : ℕ) (i : ClientId) (x : State × Watches) (a : Label) :
    Decidable (ReadsClock epoch i x a) :=
  match a with
  | .connect .. | .pong .. | .ping .. => inferInstanceAs (Decidable (_ → _))
  | .elapse _ | .subscribe _ | .broadcast _ | .broadcastRoom .. | .receive .. | .track _
  | .transmit .. | .ackTick .. | .text .. | .joined _ | .close _ | .remove _ | .count _
  | .removeRoom _ => isTrue trivial

/-- The handler has a step that is due some time: in its loop the next ping, if it pings. -/
def Stage.urged (cfg : Config) (stage : Stage) : Bool :=
  stage.inside && (cfg.heartbeat.enabled || !stage.looping)

/-- The handler does not ping before the tick, and no step of it is late by more than `lag`. -/
def Punctual (cfg : Config) (lag : ℕ) (i : ClientId) (x : State × Watches) : Label → Prop
  | .ping j _ _ => j = i → (x.2 i).due ≤ x.1.now
  | .elapse d => (x.1.stage i).urged cfg → x.1.now + d ≤ (x.2 i).due + lag
  | _ => True

instance (cfg : Config) (lag : ℕ) (i : ClientId) (x : State × Watches) (a : Label) :
    Decidable (Punctual cfg lag i x a) :=
  match a with
  | .ping .. | .elapse _ => inferInstanceAs (Decidable (_ → _))
  | .connect .. | .pong .. | .subscribe _ | .broadcast _ | .broadcastRoom .. | .receive ..
  | .track _ | .transmit .. | .ackTick .. | .text .. | .joined _ | .close _ | .remove _
  | .count _ | .removeRoom _ => isTrue trivial

/-- A silence of this length is a timeout, however the seconds of the clock fall. -/
def Config.patience (cfg : Config) : ℕ := (cfg.heartbeat.timeoutSecs + 1) * 1000000000

/-- How long after the last answer of its client a step of a handler in its loop may be due. -/
def Config.horizon (cfg : Config) (period : Period) (lag : ℕ) : ℕ :=
  cfg.patience + period.nanos + lag

section Turns

variable {cfg : Config} {s s' : State} {a : Label} {i : ClientId}

inductive Turn (cfg : Config) (s s' : State) (i : ClientId) : Label → Prop
  | connect {secs : ℕ} (hs : s.stage i = .absent) (hs' : s'.stage i = .pushed)
      (hpong : (s'.conn i).last_pong = secs) : Turn cfg s s' i (.connect i secs)
  | subscribe (hs : s.stage i = .pushed) (hs' : (s'.stage i).looping)
      (hpong : (s'.conn i).last_pong = (s.conn i).last_pong) : Turn cfg s s' i (.subscribe i)
  | hear {secs : ℕ} (hs : (s.stage i).looping) (hs' : (s'.stage i).looping)
      (hpong : (s'.conn i).last_pong = secs) : Turn cfg s s' i (.pong i secs)
  | ping {secs : ℕ} (hs : (s.stage i).looping) (hs' : (s'.stage i).looping)
      (hpong : (s'.conn i).last_pong = (s.conn i).last_pong)
      (hfresh : secs - (s.conn i).last_pong ≤ cfg.heartbeat.timeoutSecs) :
      Turn cfg s s' i (.ping i secs true)
  | timeout {secs : ℕ} (hs : (s.stage i).looping) (hs' : s'.stage i = .leaving)
      (hpong : (s'.conn i).last_pong = (s.conn i).last_pong)
      (hsilent : cfg.heartbeat.timeoutSecs < secs - (s.conn i).last_pong) (ok : Bool) :
      Turn cfg s s' i (.ping i secs ok)
  | pingFails {secs : ℕ} (hs : (s.stage i).looping) (hs' : s'.stage i = .leaving)
      (hpong : (s'.conn i).last_pong = (s.conn i).last_pong) : Turn cfg s s' i (.ping i secs false)
  | sendFails (hs : (s.stage i).looping) (hs' : s'.stage i = .leaving)
      (hpong : (s'.conn i).last_pong = (s.conn i).last_pong) : Turn cfg s s' i (.transmit i false)
  | close (hs : (s.stage i).looping) (hs' : s'.stage i = .leaving)
      (hpong : (s'.conn i).last_pong = (s.conn i).last_pong) : Turn cfg s s' i (.close i)
  | goOn {a : Label} (hs : (s.stage i).looping) (hs' : (s'.stage i).looping)
      (hpong : (s'.conn i).last_pong = (s.conn i).last_pong) (ha : a.unwatched) :
      Turn cfg s s' i a
  | out {a : Label} (hs : (s.stage i).looping = false) (hs' : (s'.stage i).inside = false) :
      Turn cfg s s' i a

theorem modify_last_pong {i : ClientId} {f : WsConnection → WsConnection}
    (hf : (f (s.conn i)).last_pong = (s.conn i).last_pong) :
    ((s.modify i f).conn i).last_pong = (s.conn i).last_pong := by
  by_cases hi : i ∈ s.connections
  · rw [State.modify_conn_self s f hi, hf]
  · rw [State.modify, if_neg hi]

theorem turn_handleText (hs : (s.stage i).looping) (value : Option Json) :
    Turn cfg s (s.handleText i (command cfg.ack.enabled value)) i (.text i value) := by
  cases command cfg.ack.enabled value with
  | ack id =>
      refine .goOn hs ?_ (modify_last_pong rfl) rfl
      rw [State.handleText, State.modify_stage]
      exact hs
  | join room =>
      refine .goOn hs ?_ rfl rfl
      rw [State.handleText, State.goto_stage_self]
      rfl
  | leave room =>
      refine .goOn hs ?_ (modify_last_pong ?_) rfl
      · rw [State.handleText, State.leaveRoom, State.modify_stage]
        exact hs
      · split_ifs <;> rfl
  | other => exact .goOn hs hs rfl rfl

theorem turn_ping {secs : ℕ} {ok : Bool} (hattached : Attached s)
    (h : (system cfg).step s (.ping i secs ok) = some s') : Turn cfg s s' i (.ping i secs ok) := by
  change State.next cfg s (.ping i secs ok) = some s' at h
  obtain ⟨⟨hs, -⟩, h⟩ := Option.ite_none_right_eq_some.1 h
  have hloop : (s.stage i).looping := by
    rw [hs]
    rfl
  have hi : i ∈ s.connections := by
    rw [hattached i, hs]
    rfl
  obtain rfl := Option.some.inj h
  split_ifs with hleave
  · have hleft := State.goto_stage_self s i .leaving
    by_cases hsilent : cfg.heartbeat.timeoutSecs < secs - (s.conn i).last_pong
    · exact .timeout hloop hleft rfl hsilent ok
    · have hok : ok = false := by simpa [hi, hsilent] using hleave
      rw [hok]
      exact .pingFails hloop hleft rfl
  · have hstay : secs - (s.conn i).last_pong ≤ cfg.heartbeat.timeoutSecs ∧ ok = true := by
      simpa [hi] using hleave
    rw [hstay.2]
    exact .ping hloop hloop rfl hstay.1

theorem turn_ackTick {iter : MapOrder} (h : (system cfg).step s (.ackTick i iter) = some s') :
    Turn cfg s s' i (.ackTick i iter) := by
  change State.next cfg s (.ackTick i iter) = some s' at h
  obtain ⟨⟨hs, -⟩, h⟩ := Option.ite_none_right_eq_some.1 h
  have hloop : (s.stage i).looping := by
    rw [hs]
    rfl
  obtain rfl := Option.some.inj h
  split_ifs with hi
  · refine .goOn hloop ?_ (modify_last_pong rfl) rfl
    rw [State.send_stage, State.modify_stage]
    exact hloop
  · exact .goOn hloop hloop rfl rfl

theorem step_turn (hattached : Attached s) (h : (system cfg).step s a = some s')
    (hi : a.client = some i) : Turn cfg s s' i a := by
  have hloop {stage : Stage} (hs : s.stage i = stage) (hstage : stage.looping) :
      (s.stage i).looping := by
    rw [hs]
    exact hstage
  cases next_move h with
  | elapse | broadcast | broadcastRoom => cases hi
  | connect hs =>
      obtain rfl := Option.some.inj hi
      exact .connect hs (State.goto_stage_self ..) (congrArg _ (Function.update_self ..))
  | subscribe hs =>
      obtain rfl := Option.some.inj hi
      refine .subscribe hs ?_ rfl
      rw [State.goto_stage_self]
      rfl
  | receive hs hr =>
      obtain rfl := Option.some.inj hi
      refine .goOn (hloop hs rfl) ?_ rfl rfl
      rw [State.goto_stage_self]
      split_ifs <;> rfl
  | lag hs hr =>
      obtain rfl := Option.some.inj hi
      refine .goOn (hloop hs rfl) ?_ rfl rfl
      rw [State.advance_stage]
      exact hloop hs rfl
  | track hs =>
      obtain rfl := Option.some.inj hi
      refine .goOn (hloop hs rfl) ?_ (modify_last_pong rfl) rfl
      rw [State.goto_stage_self]
      rfl
  | transmit hs =>
      obtain rfl := Option.some.inj hi
      refine .goOn (hloop hs rfl) ?_ rfl rfl
      rw [State.goto_stage_self]
      rfl
  | sendFails hs =>
      obtain rfl := Option.some.inj hi
      exact .sendFails (hloop hs rfl) (State.goto_stage_self ..) rfl
  | ackTick | tickOff =>
      obtain rfl := Option.some.inj hi
      exact turn_ackTick h
  | pinged | timeout =>
      obtain rfl := Option.some.inj hi
      exact turn_ping hattached h
  | close hs =>
      obtain rfl := Option.some.inj hi
      exact .close (hloop hs rfl) (State.goto_stage_self ..) rfl
  | text hs =>
      obtain rfl := Option.some.inj hi
      exact turn_handleText (hloop hs rfl) _
  | joined hs =>
      obtain rfl := Option.some.inj hi
      refine .goOn (hloop hs rfl) ?_ (modify_last_pong rfl) rfl
      rw [State.goto_stage_self]
      rfl
  | pong hs =>
      obtain rfl := Option.some.inj hi
      refine .hear (hloop hs rfl) ?_ (congrArg _ (State.modify_conn_self _ _ ?_))
      · rw [State.modify_stage]
        exact hloop hs rfl
      · rw [hattached, hs]
        rfl
  | remove hs =>
      obtain rfl := Option.some.inj hi
      refine .out ?_ ?_
      · rw [hs]
        rfl
      · rw [State.goto_stage_self]
        split <;> rfl
  | count hs =>
      obtain rfl := Option.some.inj hi
      refine .out ?_ ?_
      · rw [hs]
        rfl
      · rw [State.goto_stage_self]
        split_ifs <;> rfl
  | removeRoom hs =>
      obtain rfl := Option.some.inj hi
      refine .out ?_ ?_
      · rw [hs]
        rfl
      · rw [State.goto_stage_self]
        rfl

theorem Watch.note_of_unwatched (ha : a.unwatched) (period : Period) (w : Watch) :
    w.note period s s' i a = if s'.stage i = .leaving then { w with due := s.now } else w := by
  cases a with
  | connect | subscribe | pong | ping => cases ha
  | _ => rfl

theorem Watch.note_of_looping (ha : a.unwatched) (hs : (s'.stage i).looping) (period : Period)
    (w : Watch) : w.note period s s' i a = w := by
  rw [note_of_unwatched ha, if_neg]
  intro hleaving
  rw [hleaving] at hs
  cases hs

/-- Time passes in no step of a handler. -/
theorem step_now (h : (system cfg).step s a = some s') :
    s'.now = s.now ∨ ∃ d, a = .elapse d ∧ s'.now = s.now + d := by
  cases next_move h with
  | elapse d => exact .inr ⟨d, rfl, rfl⟩
  | @text _ value hs =>
      left
      cases command cfg.ack.enabled value with
      | ack id => exact State.modify_now ..
      | join room => rfl
      | leave room => exact State.modify_now ..
      | other => rfl
  | _ =>
      left
      simp

end Turns

section Dropped

variable {cfg : Config} {period : Period} {epoch : ℕ} {i : ClientId} {x y : State × Watches}
  {a : Label}

theorem watching_step (h : (watching cfg period).step x a = some y) :
    (system cfg).step x.1 a = some y.1 ∧
      (a.client = some i → y.2 i = (x.2 i).note period x.1 y.1 i a) ∧
      (a.client ≠ some i → y.2 i = x.2 i) := by
  obtain ⟨hnext, hnote⟩ := TransitionSystem.observe_step_eq_some.1 h
  rw [hnote]
  exact ⟨hnext, fun hi => if_pos hi, fun hi => if_neg hi⟩

structure Stamped (epoch : ℕ) (i : ClientId) (x : State × Watches) : Prop where
  attached : Attached x.1
  stamp : (x.1.stage i).inside → (x.1.conn i).last_pong = secsAt epoch (x.2 i).contact

theorem Stamped.step (h : Stamped epoch i x) (hclock : ReadsClock epoch i x a)
    (hstep : (watching cfg period).step x a = some y) : Stamped epoch i y := by
  obtain ⟨hnext, hnote, hsame⟩ := watching_step (i := i) hstep
  refine ⟨attached_step h.attached hnext, fun hinside => ?_⟩
  by_cases hi : a.client = some i
  · rw [hnote hi]
    have hkept (hs : (x.1.stage i).looping)
        (hpong : (y.1.conn i).last_pong = (x.1.conn i).last_pong) :
        (y.1.conn i).last_pong = secsAt epoch (x.2 i).contact := by
      rw [hpong]
      exact h.stamp (inside_of_looping hs)
    cases step_turn h.attached hnext hi with
    | connect hs hs' hpong =>
        rw [hpong, hclock rfl]
        rfl
    | hear hs hs' hpong =>
        rw [hpong, hclock rfl]
        rfl
    | subscribe hs hs' hpong =>
        rw [hpong]
        apply h.stamp
        rw [hs]
        rfl
    | ping hs _ hpong | timeout hs _ hpong | pingFails hs _ hpong => exact hkept hs hpong
    | sendFails hs hs' hpong | close hs hs' hpong =>
        rw [Watch.note_of_unwatched rfl, if_pos hs']
        exact hkept hs hpong
    | goOn hs hs' hpong ha =>
        rw [Watch.note_of_looping ha hs']
        exact hkept hs hpong
    | out _ hs' =>
        rw [hs'] at hinside
        cases hinside
  · obtain ⟨hhandler, hconn⟩ := step_of_ne hnext hi
    rw [hsame hi, hconn]
    apply h.stamp
    rwa [State.stage, ← hhandler]

theorem stamped_of_reachable {C : State × Watches → Label → Prop}
    (hC : ∀ x a, C x a → ReadsClock epoch i x a)
    (hx : (watching cfg period).Reachable C x) : Stamped epoch i x := by
  refine hx.invariant ⟨attached_init cfg, ?_⟩ (fun x a y h ha hstep => h.step (hC x a ha) hstep)
  intro hinside
  cases hinside

/-- A handler leaves its loop only when its client closes the connection, when it cannot send, or
when a ping finds that the client has been silent for longer than the timeout. -/
theorem dropped_when_silent (hx : (watching cfg period).Reachable (ReadsClock epoch i) x)
    (hclock : ReadsClock epoch i x a) (hstep : (watching cfg period).step x a = some y)
    (hs : (x.1.stage i).looping) (hs' : (y.1.stage i).looping = false) :
    a = .close i ∨ a = .transmit i false ∨ ∃ secs ok, a = .ping i secs ok ∧
      (ok = false ∨
        (x.2 i).contact + cfg.heartbeat.timeoutSecs * 1000000000 < x.1.now) := by
  have hstamped := stamped_of_reachable (fun _ _ h => h) hx
  have hstamp := hstamped.stamp (inside_of_looping hs)
  have hnext := (watching_step (i := i) hstep).1
  have hi : a.client = some i := by
    by_contra hi
    have hstage : y.1.stage i = x.1.stage i := congrArg Handler.stage (step_of_ne hnext hi).1
    rw [hstage, hs] at hs'
    cases hs'
  cases step_turn hstamped.attached hnext hi with
  | close => exact .inl rfl
  | sendFails => exact .inr (.inl rfl)
  | pingFails => exact .inr (.inr ⟨_, _, rfl, .inl rfl⟩)
  | timeout _ _ _ hsilent ok =>
      refine .inr (.inr ⟨_, ok, rfl, .inr ?_⟩)
      rw [hstamp, hclock rfl, secsAt, secsAt] at hsilent
      omega
  | connect habsent =>
      rw [habsent] at hs
      cases hs
  | subscribe _ hloop | hear _ hloop | ping _ hloop | goOn _ hloop =>
      rw [hloop] at hs'
      cases hs'
  | out hout =>
      rw [hout] at hs
      cases hs

end Dropped

/-- A handler in the stage, at `now`, is not late; and a step is due at most `horizon` after the
last answer, the one in which it leaves by `lag` more. -/
structure InTime (horizon lag : ℕ) (stage : Stage) (now : ℕ) (w : Watch) : Prop where
  past : stage.inside → w.contact ≤ now
  time : stage.inside → now ≤ w.due + lag
  fresh : stage = .pushed → w.due ≤ w.contact
  loop : stage.looping → w.due ≤ w.contact + horizon
  left : stage = .leaving → w.due ≤ w.contact + horizon + lag

section InTime

variable {horizon lag now : ℕ} {stage stage' : Stage} {w : Watch}

theorem InTime.of_outside (hs : stage.inside = false) : InTime horizon lag stage now w := by
  have hno (h : stage.inside) : False := by
    rw [hs] at h
    cases h
  refine ⟨fun h => (hno h).elim, fun h => (hno h).elim, ?_, ?_, ?_⟩
  · rintro rfl
    cases hs
  · intro h
    exact (hno (inside_of_looping h)).elim
  · rintro rfl
    cases hs

theorem InTime.of_looping (hs : stage.looping) (past : w.contact ≤ now) (time : now ≤ w.due + lag)
    (loop : w.due ≤ w.contact + horizon) : InTime horizon lag stage now w := by
  refine ⟨fun _ => past, fun _ => time, ?_, fun _ => loop, ?_⟩
  · rintro rfl
    cases hs
  · rintro rfl
    cases hs

theorem InTime.leave (h : InTime horizon lag stage now w) (hs : stage.looping) :
    InTime horizon lag .leaving now { w with due := now } := by
  have hinside := inside_of_looping hs
  have htime := h.time hinside
  have hloop := h.loop hs
  refine ⟨fun _ => h.past hinside, fun _ => ?_, nofun, nofun, fun _ => ?_⟩
  · change now ≤ now + lag
    omega
  · change now ≤ w.contact + horizon + lag
    omega

theorem InTime.elapse (h : InTime horizon lag stage now w) {d : ℕ}
    (htime : stage.inside → now + d ≤ w.due + lag) : InTime horizon lag stage (now + d) w where
  past := fun hs => Nat.le_add_right_of_le (h.past hs)
  time := htime
  fresh := h.fresh
  loop := h.loop
  left := h.left

theorem InTime.connect (now : ℕ) : InTime horizon lag .pushed now ⟨now, now⟩ where
  past := fun _ => Nat.le_refl now
  time := fun _ => Nat.le_add_right now lag
  fresh := fun _ => Nat.le_refl now
  loop := nofun
  left := nofun

theorem InTime.subscribe (h : InTime horizon lag .pushed now w) (hlag : lag ≤ horizon)
    (hs' : stage'.looping) : InTime horizon lag stage' now { w with due := now } := by
  have htime := h.time rfl
  have hfresh := h.fresh rfl
  refine .of_looping hs' (h.past rfl) (Nat.le_add_right now lag) ?_
  change now ≤ w.contact + horizon
  omega

theorem InTime.hear (h : InTime horizon lag stage now w) (hs : stage.looping)
    (hs' : stage'.looping) :
    InTime horizon lag stage' now { w with contact := now } := by
  have hpast := h.past (inside_of_looping hs)
  have hloop := h.loop hs
  refine .of_looping hs' (Nat.le_refl now) (h.time (inside_of_looping hs)) ?_
  change w.due ≤ now + horizon
  omega

theorem InTime.ping (h : InTime horizon lag stage now w) (hs : stage.looping) (hs' : stage'.looping)
    {period : ℕ} (hdue : w.due ≤ now) (hfresh : now + period ≤ w.contact + horizon) :
    InTime horizon lag stage' now { w with due := w.due + period } := by
  have htime := h.time (inside_of_looping hs)
  refine .of_looping hs' (h.past (inside_of_looping hs)) ?_ ?_
  · change now ≤ w.due + period + lag
    omega
  · change w.due + period ≤ w.contact + horizon
    omega

theorem InTime.goOn (h : InTime horizon lag stage now w) (hs : stage.looping)
    (hs' : stage'.looping) :
    InTime horizon lag stage' now w :=
  .of_looping hs' (h.past (inside_of_looping hs)) (h.time (inside_of_looping hs)) (h.loop hs)

/-- The bound that the stages have in common. -/
theorem InTime.bound (h : InTime horizon lag stage now w) (hlag : lag ≤ horizon)
    (hs : stage.inside) : now ≤ w.contact + horizon + 2 * lag := by
  have htime := h.time hs
  cases hstage : stage with
  | pushed =>
      have hfresh := h.fresh hstage
      omega
  | leaving =>
      have hleft := h.left hstage
      omega
  | idle | tracking | sending | joining =>
      have hloop := h.loop (by rw [hstage]; rfl)
      omega
  | absent | counting | removing | gone =>
      rw [hstage] at hs
      cases hs

end InTime

section Stays

variable {cfg : Config} {period : Period} {epoch lag : ℕ} {i : ClientId} {x y : State × Watches}
  {a : Label}

theorem urged_of_inside (henabled : cfg.heartbeat.enabled) {stage : Stage} (h : stage.inside) :
    stage.urged cfg := by
  rw [Stage.urged, h, henabled]
  rfl

theorem InTime.step (henabled : cfg.heartbeat.enabled) (hstamped : Stamped epoch i x)
    (h : InTime (cfg.horizon period lag) lag (x.1.stage i) x.1.now (x.2 i))
    (hclock : ReadsClock epoch i x a) (hpunctual : Punctual cfg lag i x a)
    (hstep : (watching cfg period).step x a = some y) :
    InTime (cfg.horizon period lag) lag (y.1.stage i) y.1.now (y.2 i) := by
  obtain ⟨hnext, hnote, hsame⟩ := watching_step (i := i) hstep
  by_cases hi : a.client = some i
  · have hnow : y.1.now = x.1.now := by
      refine (step_now hnext).resolve_right ?_
      rintro ⟨d, rfl, -⟩
      cases hi
    rw [hnow, hnote hi]
    cases step_turn hstamped.attached hnext hi with
    | connect hs hs' hpong =>
        rw [hs']
        exact .connect x.1.now
    | subscribe hs hs' hpong =>
        rw [hs] at h
        exact h.subscribe (Nat.le_add_left ..) hs'
    | hear hs hs' hpong => exact h.hear hs hs'
    | ping hs hs' hpong hfresh =>
        have hstay : ¬ y.1.stage i = .leaving := by
          intro hleaving
          rw [hleaving] at hs'
          cases hs'
        rw [hstamped.stamp (inside_of_looping hs), hclock rfl, secsAt, secsAt] at hfresh
        simp only [Watch.note, if_neg hstay]
        apply h.ping hs hs' (hpunctual rfl)
        rw [Config.horizon, Config.patience]
        omega
    | timeout hs hs' | pingFails hs hs' =>
        simp only [Watch.note, if_pos hs']
        rw [hs']
        exact h.leave hs
    | sendFails hs hs' | close hs hs' =>
        rw [Watch.note_of_unwatched rfl, if_pos hs', hs']
        exact h.leave hs
    | goOn hs hs' hpong ha =>
        rw [Watch.note_of_looping ha hs']
        exact h.goOn hs hs'
    | out hs hs' => exact .of_outside hs'
  · have hstage : y.1.stage i = x.1.stage i := congrArg Handler.stage (step_of_ne hnext hi).1
    rw [hstage, hsame hi]
    rcases step_now hnext with hnow | ⟨d, rfl, hnow⟩
    · rw [hnow]
      exact h
    · rw [hnow]
      exact h.elapse (fun hs => hpunctual (urged_of_inside henabled hs))

/-- Whoever is connected was last heard of within the timeout, a period and what the handler is
late. -/
theorem silent_leaves (henabled : cfg.heartbeat.enabled)
    (hx : (watching cfg period).Reachable
      (fun x a => ReadsClock epoch i x a ∧ Punctual cfg lag i x a) x)
    (hi : i ∈ x.1.connections) :
    x.1.now ≤ (x.2 i).contact + cfg.horizon period lag + 2 * lag := by
  have hkept : Stamped epoch i x ∧
      InTime (cfg.horizon period lag) lag (x.1.stage i) x.1.now (x.2 i) := by
    refine hx.invariant (I := fun x => Stamped epoch i x ∧
      InTime (cfg.horizon period lag) lag (x.1.stage i) x.1.now (x.2 i)) ?_ ?_
    · exact ⟨stamped_of_reachable (fun _ _ h => h) .init, .of_outside rfl⟩
    · rintro x a y ⟨hstamped, hkept⟩ ⟨hclock, hpunctual⟩ hstep
      exact ⟨hstamped.step hclock hstep, hkept.step henabled hstamped hclock hpunctual hstep⟩
  exact hkept.2.bound (Nat.le_add_left ..) ((hkept.1.attached i).1 hi)

end Stays

def everyHalfMinute : Period := ⟨30000000000, by omega⟩

/-- A client that answers the first ping only. The third tick after it is handled late. -/
def silence : List Label :=
  [.connect 0 100, .subscribe 0, .ping 0 100 true, .elapse 2500000000, .pong 0 102,
    .elapse 27500000000, .ping 0 130 true, .elapse 30000000000, .ping 0 160 true,
    .elapse 30200000000]

/-- The handler is in its loop when the client has been silent for 87.7 seconds. -/
theorem reachable_silence :
    ∃ x, (watching .default everyHalfMinute).Reachable
      (fun x a => ReadsClock 100000000000 0 x a ∧ Punctual .default 1000000000 0 x a) x ∧
      0 ∈ x.1.connections ∧ (x.1.stage 0).looping ∧
      ((watching .default everyHalfMinute).step x (.ping 0 190 true)).any
        (fun y => (y.1.stage 0).looping = false) ∧ x.1.now = 90200000000 := by
  obtain ⟨x, he, hp⟩ := ((watching .default everyHalfMinute).guard (fun x a =>
    ReadsClock 100000000000 0 x a ∧ Punctual .default 1000000000 0 x a)).exists_exec
      (s := (watching .default everyHalfMinute).init) (r := silence)
      (p := fun x => 0 ∈ x.1.connections ∧ (x.1.stage 0).looping ∧
        ((watching .default everyHalfMinute).step x (.ping 0 190 true)).any
          (fun y => (y.1.stage 0).looping = false) ∧ x.1.now = 90200000000)
      (by decide +kernel)
  exact ⟨x, TransitionSystem.reachable_of_guard_exec _ .init he, of_decide_eq_true hp⟩

theorem dropped_when_silent_silence :
    ∃ x y, (watching .default everyHalfMinute).step x (.ping 0 190 true) = some y ∧
      (x.2 0).contact + Config.default.heartbeat.timeoutSecs * 1000000000 < x.1.now := by
  obtain ⟨x, hx, -, hs, hstep, hnow⟩ := reachable_silence
  obtain ⟨y, hy, hs'⟩ := (Option.any_eq_true ..).1 hstep
  have hread : (watching .default everyHalfMinute).Reachable (ReadsClock 100000000000 0) x :=
    hx.invariant .init (fun _ _ _ h ha hstep => .step h ha.1 hstep)
  have hclock : ReadsClock 100000000000 0 x (.ping 0 190 true) := by
    intro _
    rw [hnow]
    rfl
  rcases dropped_when_silent hread hclock hy hs (of_decide_eq_true hs') with
    h | h | ⟨secs, ok, h, hsilent⟩
  · cases h
  · cases h
  · cases h
    exact ⟨x, y, hy, hsilent.resolve_left (by simp)⟩

theorem silent_leaves_silence :
    ∃ x : State × Watches, x.1.now = 90200000000 ∧
      x.1.now ≤ (x.2 0).contact + Config.default.horizon everyHalfMinute 1000000000 +
        2 * 1000000000 := by
  obtain ⟨x, hx, hi, -, -, hnow⟩ := reachable_silence
  exact ⟨x, hnow, silent_leaves rfl hx hi⟩

end Rszero.WebSocket
