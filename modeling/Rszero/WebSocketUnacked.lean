import Mathlib.Data.List.Basic
import Rszero.WebSocketDelivery

/-!
# Unacknowledged messages

A message is sent under an id of its own and stays in the map of its connection until the client
acknowledges the id or the retries are exhausted. The transmissions of one id are numbered, and the
entry in the map says when the last one was and which number it had. What a connection has gone
through is a history: what was broadcast since its handler subscribed, the ids the handler drew, the
acks it processed with the number of frames that had been sent by then, and the steps it took at
messages.
-/

namespace Rszero.WebSocket

def Unacked.entries (unacked : Unacked) (id : String) : List UnackedMessage :=
  (unacked.filter (fun e => e.1 = id)).map Prod.snd

def Handler.framesOf (h : Handler) (id : String) : List Frame :=
  h.socket.filter (fun frame => frame.id = some id)

section Entries

variable {unacked : Unacked} {id : String} {u : UnackedMessage} {ack : AckConfig} {now : ℕ}

theorem mem_entries_iff : u ∈ Unacked.entries unacked id ↔ (id, u) ∈ unacked := by
  simp [Unacked.entries]

theorem entries_cases (unique : (Unacked.entries unacked id).length ≤ 1) :
    Unacked.entries unacked id = [] ∨ ∃ u, Unacked.entries unacked id = [u] := by
  match hentries : Unacked.entries unacked id with
  | [] => exact .inl rfl
  | [u] => exact .inr ⟨u, rfl⟩
  | _ :: _ :: _ =>
      rw [hentries] at unique
      simp at unique

theorem filter_key_eq (unacked : Unacked) (id : String) :
    unacked.filter (fun e => e.1 = id) = (Unacked.entries unacked id).map (fun u => (id, u)) := by
  induction unacked with
  | nil => rfl
  | cons e unacked ih =>
      obtain ⟨key, u⟩ := e
      by_cases hkey : key = id
      · subst hkey
        simpa [Unacked.entries] using ih
      · simpa [Unacked.entries, hkey] using ih

theorem entries_remove_self (unacked : Unacked) (id : String) :
    Unacked.entries (Unacked.remove unacked id) id = [] := by
  simp [Unacked.entries, Unacked.remove]

theorem entries_remove_of_ne {id' : String} (hne : id' ≠ id) :
    Unacked.entries (Unacked.remove unacked id) id' = Unacked.entries unacked id' := by
  have hkey (e : String × UnackedMessage) :
      (decide (e.1 = id') && decide (e.1 ≠ id)) = decide (e.1 = id') := by
    by_cases he : e.1 = id'
    · simp [he, hne]
    · simp [he]
  simp only [Unacked.entries, Unacked.remove, List.filter_filter, hkey]

theorem entries_insert_self (unacked : Unacked) (id : String) (u : UnackedMessage) :
    Unacked.entries (Unacked.insert unacked id u) id = [u] := by
  have hrest := entries_remove_self unacked id
  simp only [Unacked.entries, List.map_eq_nil_iff] at hrest
  simp [Unacked.entries, Unacked.insert, hrest]

theorem entries_insert_of_ne {id' : String} (hne : id' ≠ id) :
    Unacked.entries (Unacked.insert unacked id u) id' = Unacked.entries unacked id' := by
  have hrest : Unacked.entries (Unacked.remove unacked id) id' = Unacked.entries unacked id' :=
    entries_remove_of_ne hne
  simp only [Unacked.entries] at hrest
  simp [Unacked.entries, Unacked.insert, hne.symm, hrest]

theorem retransmit_key {e e' : String × UnackedMessage} (h : retransmit ack now e = some e') :
    e'.1 = e.1 := by
  unfold retransmit at h
  split_ifs at h <;> rw [← Option.some.inj h]

theorem retransmission_id {e : String × UnackedMessage} {frame : Frame}
    (h : retransmission ack now e = some frame) : frame.id = some e.1 := by
  unfold retransmission at h
  split_ifs at h
  rw [← Option.some.inj h]

theorem entries_filterMap (unacked : Unacked) (id : String) :
    Unacked.entries (unacked.filterMap (retransmit ack now)) id =
      (Unacked.entries unacked id).filterMap
        (fun u => (retransmit ack now (id, u)).map Prod.snd) := by
  have hfilter (e : String × UnackedMessage) :
      (retransmit ack now e).filter (fun e' => e'.1 = id) =
        if e.1 = id then retransmit ack now e else none := by
    cases he : retransmit ack now e with
    | none => simp
    | some e' =>
        rw [← retransmit_key he]
        by_cases hkey : e'.1 = id <;> simp [Option.filter, hkey]
  have hunacked : (unacked.filterMap (retransmit ack now)).filter (fun e => e.1 = id) =
      (unacked.filter (fun e => e.1 = id)).filterMap (retransmit ack now) := by
    rw [List.filter_filterMap, List.filterMap_filter]
    simp only [hfilter, decide_eq_true_eq]
  rw [Unacked.entries, hunacked, filter_key_eq, List.filterMap_map, List.map_filterMap]
  rfl

/-- The frames that a tick sends under an id are those for its entry, whatever the order. -/
theorem retransmissions_of (iter : MapOrder) (unique : (Unacked.entries unacked id).length ≤ 1) :
    ((iter.order unacked).filterMap (retransmission ack now)).filter
        (fun frame => frame.id = some id) =
      (Unacked.entries unacked id).filterMap (fun u => retransmission ack now (id, u)) := by
  have hfilter (e : String × UnackedMessage) :
      (retransmission ack now e).filter (fun frame => frame.id = some id) =
        if e.1 = id then retransmission ack now e else none := by
    cases he : retransmission ack now e with
    | none => simp
    | some frame =>
        have hid := retransmission_id he
        by_cases hkey : e.1 = id <;> simp [Option.filter, hid, hkey]
  have hperm := (iter.perm unacked).filter (fun e => e.1 = id)
  rw [filter_key_eq unacked] at hperm
  have heq : (iter.order unacked).filter (fun e => e.1 = id) =
      (Unacked.entries unacked id).map (fun u => (id, u)) := by
    rcases entries_cases unique with hentries | ⟨u, hentries⟩
    · rw [hentries] at hperm ⊢
      exact hperm.eq_nil
    · rw [hentries] at hperm ⊢
      exact List.perm_singleton.1 hperm
  calc ((iter.order unacked).filterMap (retransmission ack now)).filter
        (fun frame => frame.id = some id)
      = ((iter.order unacked).filter (fun e => e.1 = id)).filterMap
          (retransmission ack now) := by
        rw [List.filter_filterMap, List.filterMap_filter]
        simp only [hfilter, decide_eq_true_eq]
    _ = (Unacked.entries unacked id).filterMap (fun u => retransmission ack now (id, u)) := by
        rw [heq, List.filterMap_map]
        rfl

end Entries

structure Transmitted (ack : AckConfig) (frames : List Frame) : Prop where
  numbered : frames.map Frame.retry = List.range frames.length
  times : frames.length ≤ 1 + ack.max_retries
  spaced : frames.Pairwise (fun f g => f.sent_at + ack.timeout < g.sent_at)
  same : ∀ f ∈ frames, ∀ g ∈ frames, f.payload = g.payload

structure Tracked (ack : AckConfig) (frames : List Frame) (u : UnackedMessage) : Prop where
  retries : u.retry_count ≤ ack.max_retries
  latest : ∀ f ∈ frames, f.sent_at ≤ u.sent_at
  payload : ∀ f ∈ frames, f.payload = u.payload

section Transmissions

variable {ack : AckConfig} {frames : List Frame} {u : UnackedMessage}

theorem Transmitted.nil (ack : AckConfig) : Transmitted ack [] where
  numbered := rfl
  times := Nat.zero_le _
  spaced := List.Pairwise.nil
  same := by
    intro f hf
    cases hf

theorem Transmitted.append (h : Transmitted ack frames) {frame : Frame}
    (hretry : frame.retry = frames.length) (hle : frames.length ≤ ack.max_retries)
    (hspaced : ∀ f ∈ frames, f.sent_at + ack.timeout < frame.sent_at)
    (hsame : ∀ f ∈ frames, f.payload = frame.payload) : Transmitted ack (frames ++ [frame]) where
  numbered := by
    rw [List.map_append, h.numbered, List.length_append, List.length_singleton,
      List.range_succ, List.map_singleton, hretry]
  times := by
    rw [List.length_append, List.length_singleton]
    omega
  spaced := by
    rw [List.pairwise_append]
    refine ⟨h.spaced, List.pairwise_singleton .., ?_⟩
    intro f hf g hg
    rw [List.mem_singleton.1 hg]
    exact hspaced f hf
  same := by
    have hall (f : Frame) (hf : f ∈ frames ++ [frame]) : f.payload = frame.payload := by
      rcases List.mem_append.1 hf with hold | hnew
      · exact hsame f hold
      · rw [List.mem_singleton.1 hnew]
    intro f hf g hg
    rw [hall f hf, hall g hg]

theorem Tracked.overdue (h : Tracked ack frames u) {now : ℕ} (hdue : u.overdue ack now) :
    ∀ f ∈ frames, f.sent_at + ack.timeout < now := by
  intro f hf
  have hlatest := h.latest f hf
  have hlate : ack.timeout < now - u.sent_at := of_decide_eq_true hdue
  omega

/-- What a tick makes of an entry and of the transmissions under its id. -/
theorem Tracked.tick (ht : Transmitted ack frames) (h : Tracked ack frames u)
    (hcount : frames.length = u.retry_count + 1) (id : String) (now : ℕ) :
    Transmitted ack (frames ++ (retransmission ack now (id, u)).toList) ∧
      ∀ e, retransmit ack now (id, u) = some e →
        Tracked ack (frames ++ (retransmission ack now (id, u)).toList) e.2 ∧
          (frames ++ (retransmission ack now (id, u)).toList).length = e.2.retry_count + 1 := by
  by_cases hdue : u.overdue ack now
  · by_cases hmax : u.retry_count ≥ ack.max_retries
    · have hnone : retransmission ack now (id, u) = none := by
        rw [retransmission, if_pos hdue, if_pos hmax]
      have hdropped : retransmit ack now (id, u) = none := by
        rw [retransmit, if_pos hdue, if_pos hmax]
      rw [hnone, hdropped, Option.toList_none, List.append_nil]
      exact ⟨ht, nofun⟩
    · have hsome : retransmission ack now (id, u) =
          some ⟨some id, u.payload, u.retry_count + 1, now⟩ := by
        rw [retransmission, if_pos hdue, if_neg hmax]
      have hkept : retransmit ack now (id, u) =
          some (id, { u with retry_count := u.retry_count + 1, sent_at := now }) := by
        rw [retransmit, if_pos hdue, if_neg hmax]
      have hspaced := h.overdue hdue
      rw [hsome, hkept, Option.toList_some]
      constructor
      · apply ht.append
        · exact hcount.symm
        · omega
        · exact hspaced
        · exact h.payload
      · rintro e ⟨⟩
        refine ⟨⟨?_, ?_, ?_⟩, ?_⟩
        · change u.retry_count + 1 ≤ ack.max_retries
          omega
        · intro f hf
          change f.sent_at ≤ now
          rcases List.mem_append.1 hf with hold | hnew
          · have hlate := hspaced f hold
            omega
          · exact Nat.le_of_eq (congrArg Frame.sent_at (List.mem_singleton.1 hnew))
        · intro f hf
          rcases List.mem_append.1 hf with hold | hnew
          · exact h.payload f hold
          · rw [List.mem_singleton.1 hnew]
        · rw [List.length_append, hcount]
          rfl
  · have hnone : retransmission ack now (id, u) = none := by
      rw [retransmission, if_neg hdue]
    have hkept : retransmit ack now (id, u) = some (id, u) := by
      rw [retransmit, if_neg hdue]
    rw [hnone, hkept, Option.toList_none, List.append_nil]
    refine ⟨ht, ?_⟩
    rintro e ⟨⟩
    exact ⟨h, hcount⟩

end Transmissions

structure Exchange where
  addressed : List String
  ids : List String
  acks : List (String × ℕ)
  turns : ℕ

def Exchange.receive (e : Exchange) (id : String) : Exchange :=
  { e with ids := id :: e.ids, turns := e.turns + 1 }

def Exchange.turn (e : Exchange) : Exchange := { e with turns := e.turns + 1 }

def Exchange.acknowledge (e : Exchange) (id : String) (n : ℕ) : Exchange :=
  { e with acks := (id, n) :: e.acks }

/-- How many turns the handler took at the message in hand. -/
def Stage.phase : Stage → ℕ
  | .tracking .. => 1
  | .sending _ => 2
  | _ => 0

structure Exchanged (ack : AckConfig) (h : Handler) (unacked : Unacked) (e : Exchange) :
    Prop where
  fresh : h.stage = .absent → h.socket = [] ∧ e.turns = 0
  known : ∀ frame ∈ h.socket, ∃ id ∈ e.ids, frame.id = some id
  keys : ∀ id, id ∉ e.ids → Unacked.entries unacked id = []
  unique : ∀ id, (Unacked.entries unacked id).length ≤ 1
  transmitted : ∀ id, Transmitted ack (h.framesOf id)
  tracked : ∀ id, ∀ u ∈ Unacked.entries unacked id, Tracked ack (h.framesOf id) u
  counted : h.stage.serving → ∀ id, ∀ u ∈ Unacked.entries unacked id,
    (∃ frame, h.stage = .sending frame ∧ frame.id = some id) ∨
      (h.framesOf id).length = u.retry_count + 1
  paced : h.stage.serving → e.turns = 3 * h.delivered.length + h.stage.phase
  received : ∀ id msg, h.stage = .tracking id msg →
    id ∈ e.ids ∧ h.framesOf id = [] ∧ Unacked.entries unacked id = []
  hand : ∀ frame, h.stage = .sending frame → frame.retry = 0 ∧ ∃ id ∈ e.ids,
    frame.id = some id ∧ h.framesOf id = [] ∧ ∀ u ∈ Unacked.entries unacked id,
      u.retry_count = 0 ∧ u.payload = frame.payload ∧ frame.sent_at ≤ u.sent_at
  acked : ∀ x ∈ e.acks, x.2 ≤ h.socket.length ∧
    ((∃ frame ∈ h.socket.take x.2, frame.id = some x.1) →
      (∀ frame ∈ h.socket.drop x.2, frame.id ≠ some x.1) ∧ Unacked.entries unacked x.1 = [])

section Exchanged

variable {ack : AckConfig} {h : Handler} {unacked : Unacked} {e : Exchange}

theorem framesOf_append (h : Handler) (frames : List Frame) (id : String) :
    Handler.framesOf { h with socket := h.socket ++ frames } id =
      h.framesOf id ++ frames.filter (fun frame => frame.id = some id) :=
  List.filter_append ..

theorem ne_of_framesOf_eq_nil {id : String} (hnone : h.framesOf id = []) :
    ∀ frame ∈ h.socket, frame.id ≠ some id := by
  simpa [Handler.framesOf, List.filter_eq_nil_iff] using hnone

theorem Exchanged.framesOf_of_not_mem (hx : Exchanged ack h unacked e) {id : String}
    (hid : id ∉ e.ids) : h.framesOf id = [] := by
  rw [Handler.framesOf, List.filter_eq_nil_iff]
  intro frame hframe
  obtain ⟨id', hid', heq⟩ := hx.known frame hframe
  rw [heq, decide_eq_true_iff]
  exact fun h => hid (Option.some.inj h ▸ hid')

theorem Exchanged.counted_of_phase (hx : Exchanged ack h unacked e) (hs : h.stage.serving)
    (hphase : h.stage.phase ≠ 2) {id : String} {u : UnackedMessage}
    (hu : u ∈ Unacked.entries unacked id) : (h.framesOf id).length = u.retry_count + 1 := by
  rcases hx.counted hs id u hu with ⟨frame, hframe, -⟩ | hcount
  · rw [hframe] at hphase
    exact absurd rfl hphase
  · exact hcount

/-- A handler that moves on in its loop with nothing in hand. -/
theorem Exchanged.move (hx : Exchanged ack h unacked e) {stage : Stage} (hold : h.stage.serving)
    (hphase : h.stage.phase = 0) (hnew : stage.serving) (hphase' : stage.phase = 0) (next : ℕ) :
    Exchanged ack ⟨stage, next, h.socket⟩ unacked e where
  fresh := by
    rintro rfl
    cases hnew
  known := hx.known
  keys := hx.keys
  unique := hx.unique
  transmitted := hx.transmitted
  tracked := hx.tracked
  counted := fun _ id u hu => .inr (hx.counted_of_phase hold (by simp [hphase]) hu)
  paced := by
    intro _
    have hturns := hx.paced hold
    rw [hphase] at hturns
    rw [hphase']
    exact hturns
  received := by
    rintro id msg rfl
    cases hphase'
  hand := by
    rintro frame rfl
    cases hphase'
  acked := hx.acked

/-- A handler out of its loop. -/
theorem Exchanged.quit (hx : Exchanged ack h unacked e) (stage : Stage)
    (hs : stage.serving = false) (hne : stage ≠ .absent) (n : ℕ) :
    Exchanged ack { h with stage := stage } unacked { e with turns := n } where
  fresh := fun heq => absurd heq hne
  known := hx.known
  keys := hx.keys
  unique := hx.unique
  transmitted := hx.transmitted
  tracked := hx.tracked
  counted := fun hserving => by simp [hs] at hserving
  paced := fun hserving => by simp [hs] at hserving
  received := by
    rintro id msg rfl
    cases hs
  hand := by
    rintro frame rfl
    cases hs
  acked := hx.acked

theorem Exchanged.connect (hx : Exchanged ack h unacked e) (hs : h.stage = .absent) :
    Exchanged ack { h with stage := .pushed } [] e where
  fresh := nofun
  known := hx.known
  keys := fun _ _ => rfl
  unique := fun _ => Nat.zero_le _
  transmitted := hx.transmitted
  tracked := nofun
  counted := nofun
  paced := by
    intro _
    obtain ⟨hsocket, hturns⟩ := hx.fresh hs
    simp [Handler.delivered, hsocket, hturns, Stage.phase]
  received := nofun
  hand := nofun
  acked := by
    intro x hmem
    obtain ⟨hsocket, -⟩ := hx.fresh hs
    refine ⟨(hx.acked x hmem).1, ?_⟩
    rintro ⟨frame, hframe, -⟩
    rw [hsocket, List.take_nil] at hframe
    cases hframe

theorem Exchanged.receive (hx : Exchanged ack h unacked e) (hs : h.stage = .idle)
    {id : String} (hid : id ∉ e.ids) (msg : String) (next : ℕ) :
    Exchanged ack ⟨.tracking id msg, next, h.socket⟩ unacked (e.receive id) where
  fresh := nofun
  known := by
    intro frame hframe
    obtain ⟨id', hid', heq⟩ := hx.known frame hframe
    exact ⟨id', List.mem_cons_of_mem _ hid', heq⟩
  keys := fun id' hid' => hx.keys id' (fun h => hid' (List.mem_cons_of_mem _ h))
  unique := hx.unique
  transmitted := hx.transmitted
  tracked := hx.tracked
  counted := fun _ id' u hu =>
    .inr (hx.counted_of_phase (by rw [hs]; rfl) (by simp [hs, Stage.phase]) hu)
  paced := by
    intro _
    have hturns := hx.paced (by rw [hs]; rfl)
    rw [hs] at hturns
    exact congrArg (· + 1) hturns
  received := by
    rintro id' msg' ⟨⟩
    exact ⟨List.mem_cons_self, hx.framesOf_of_not_mem hid, hx.keys id hid⟩
  hand := nofun
  acked := hx.acked

theorem Exchanged.track (hx : Exchanged ack h unacked e) {id msg : String}
    (hs : h.stage = .tracking id msg) (now : ℕ) :
    Exchanged ack { h with stage := .sending ⟨some id, msg, 0, now⟩ }
      (Unacked.insert unacked id ⟨msg, 0, now⟩) e.turn := by
  obtain ⟨hid, hframes, hentries⟩ := hx.received id msg hs
  have hmem {id' : String} {u : UnackedMessage}
      (hu : u ∈ Unacked.entries (Unacked.insert unacked id ⟨msg, 0, now⟩) id') :
      (id' = id ∧ u = ⟨msg, 0, now⟩) ∨ (id' ≠ id ∧ u ∈ Unacked.entries unacked id') := by
    by_cases heq : id' = id
    · subst heq
      rw [entries_insert_self, List.mem_singleton] at hu
      exact .inl ⟨rfl, hu⟩
    · rw [entries_insert_of_ne heq] at hu
      exact .inr ⟨heq, hu⟩
  have hnone (f : Frame) : f ∉ h.framesOf id := by
    rw [hframes]
    exact List.not_mem_nil
  have hturns := hx.paced (by rw [hs]; rfl)
  rw [hs] at hturns
  refine ⟨nofun, hx.known, ?_, ?_, hx.transmitted, ?_, ?_, fun _ => congrArg (· + 1) hturns, nofun,
    ?_, ?_⟩
  · intro id' hid'
    have hne : id' ≠ id := fun heq => hid' (heq ▸ hid)
    rw [entries_insert_of_ne hne]
    exact hx.keys id' hid'
  · intro id'
    by_cases heq : id' = id
    · rw [heq, entries_insert_self]
      exact Nat.le_refl 1
    · rw [entries_insert_of_ne heq]
      exact hx.unique id'
  · intro id' u hu
    rcases hmem hu with ⟨rfl, rfl⟩ | ⟨-, hold⟩
    · exact ⟨Nat.zero_le _, fun f hf => absurd hf (hnone f), fun f hf => absurd hf (hnone f)⟩
    · exact hx.tracked id' u hold
  · intro _ id' u hu
    rcases hmem hu with ⟨rfl, rfl⟩ | ⟨-, hold⟩
    · exact .inl ⟨_, rfl, rfl⟩
    · exact .inr (hx.counted_of_phase (by rw [hs]; rfl) (by simp [hs, Stage.phase]) hold)
  · rintro frame ⟨⟩
    refine ⟨rfl, id, hid, rfl, hframes, ?_⟩
    intro u hu
    rw [entries_insert_self, List.mem_singleton] at hu
    rw [hu]
    exact ⟨rfl, rfl, Nat.le_refl _⟩
  · intro x hx'
    obtain ⟨hle, hdone⟩ := hx.acked x hx'
    refine ⟨hle, ?_⟩
    rintro ⟨frame, hframe, heq⟩
    have hne : x.1 ≠ id := by
      rintro rfl
      exact ne_of_framesOf_eq_nil hframes frame (List.mem_of_mem_take hframe) heq
    rw [entries_insert_of_ne hne]
    exact hdone ⟨frame, hframe, heq⟩

/-- What was acknowledged stays so when no frame that is sent further has its id. -/
theorem Exchanged.acked_append (hx : Exchanged ack h unacked e) {frames : List Frame}
    {unacked' : Unacked}
    (hnew : ∀ id, (∃ frame ∈ h.socket, frame.id = some id) → Unacked.entries unacked id = [] →
      (∀ frame ∈ frames, frame.id ≠ some id) ∧ Unacked.entries unacked' id = []) :
    ∀ x ∈ e.acks, x.2 ≤ (h.socket ++ frames).length ∧
      ((∃ frame ∈ (h.socket ++ frames).take x.2, frame.id = some x.1) →
        (∀ frame ∈ (h.socket ++ frames).drop x.2, frame.id ≠ some x.1) ∧
          Unacked.entries unacked' x.1 = []) := by
  intro x hx'
  obtain ⟨hle, hdone⟩ := hx.acked x hx'
  refine ⟨Nat.le_trans hle (by simp), ?_⟩
  rw [List.take_append_of_le_length hle, List.drop_append_of_le_length hle]
  rintro ⟨f, hf, heq⟩
  obtain ⟨hlater, hentries⟩ := hdone ⟨f, hf, heq⟩
  obtain ⟨hframes, hentries'⟩ := hnew x.1 ⟨f, List.mem_of_mem_take hf, heq⟩ hentries
  refine ⟨?_, hentries'⟩
  intro g hg
  rcases List.mem_append.1 hg with hold | hframe
  · exact hlater g hold
  · exact hframes g hframe

theorem Exchanged.transmit (hx : Exchanged ack h unacked e) {frame : Frame}
    (hs : h.stage = .sending frame) :
    Exchanged ack { h with stage := .idle, socket := h.socket ++ [frame] } unacked e.turn := by
  obtain ⟨hretry, id, hid, hframe, hnone, hentry⟩ := hx.hand frame hs
  have hself : Handler.framesOf { h with stage := .idle, socket := h.socket ++ [frame] } id =
      [frame] := by
    rw [show Handler.framesOf { h with stage := .idle, socket := h.socket ++ [frame] } id =
      h.framesOf id ++ [frame].filter (fun frame => frame.id = some id) from
        framesOf_append h _ id, hnone]
    simp [hframe]
  have hother {id' : String} (hne : id' ≠ id) :
      Handler.framesOf { h with stage := .idle, socket := h.socket ++ [frame] } id' =
        h.framesOf id' := by
    rw [show Handler.framesOf { h with stage := .idle, socket := h.socket ++ [frame] } id' =
      h.framesOf id' ++ [frame].filter (fun frame => frame.id = some id') from
        framesOf_append h _ id']
    simp [hframe, hne.symm]
  refine ⟨nofun, ?_, hx.keys, hx.unique, ?_, ?_, ?_, ?_, nofun, nofun, ?_⟩
  · intro f hf
    rcases List.mem_append.1 hf with hold | hnew
    · exact hx.known f hold
    · rw [List.mem_singleton.1 hnew]
      exact ⟨id, hid, hframe⟩
  · intro id'
    by_cases heq : id' = id
    · rw [heq, hself]
      exact (Transmitted.nil ack).append hretry (Nat.zero_le _) nofun nofun
    · rw [hother heq]
      exact hx.transmitted id'
  · intro id' u hu
    by_cases heq : id' = id
    · subst heq
      obtain ⟨hcount, hpayload, hsent⟩ := hentry u hu
      rw [hself]
      refine ⟨(hx.tracked id' u hu).retries, ?_, ?_⟩
      · intro f hf
        rw [List.mem_singleton.1 hf]
        exact hsent
      · intro f hf
        rw [List.mem_singleton.1 hf]
        exact hpayload.symm
    · rw [hother heq]
      exact hx.tracked id' u hu
  · intro _ id' u hu
    by_cases heq : id' = id
    · subst heq
      rw [hself, (hentry u hu).1]
      exact .inr rfl
    · rw [hother heq]
      rcases hx.counted (by rw [hs]; rfl) id' u hu with ⟨frame', hframe', hid'⟩ | hcount
      · obtain rfl := Stage.sending.inj (hs.symm.trans hframe')
        exact absurd (Option.some.inj (hid'.symm.trans hframe)) heq
      · exact .inr hcount
  · intro _
    have hturns := hx.paced (by rw [hs]; rfl)
    have hdelivered : Handler.delivered { h with stage := .idle, socket := h.socket ++ [frame] } =
        h.delivered ++ [frame.payload] := delivered_transmit h hretry .idle
    rw [hs] at hturns
    change e.turns + 1 = _
    rw [hturns, hdelivered, List.length_append]
    rfl
  · refine hx.acked_append fun id' hsent hentries => ⟨?_, hentries⟩
    intro g hg hg'
    obtain ⟨f, hf, heq⟩ := hsent
    rw [List.mem_singleton.1 hg, hframe] at hg'
    apply ne_of_framesOf_eq_nil hnone f hf
    rw [heq, hg']

/-- An ack removes the entry of its id. -/
theorem Exchanged.acknowledge (hx : Exchanged ack h unacked e) (hs : h.stage = .idle)
    (id : String) :
    Exchanged ack h (Unacked.remove unacked id) (e.acknowledge id h.socket.length) := by
  have hmem {id' : String} {u : UnackedMessage}
      (hu : u ∈ Unacked.entries (Unacked.remove unacked id) id') :
      u ∈ Unacked.entries unacked id' := by
    by_cases heq : id' = id
    · rw [heq, entries_remove_self] at hu
      cases hu
    · rwa [entries_remove_of_ne heq] at hu
  have hnil {id' : String} (hnone : Unacked.entries unacked id' = []) :
      Unacked.entries (Unacked.remove unacked id) id' = [] := by
    by_cases heq : id' = id
    · rw [heq, entries_remove_self]
    · rwa [entries_remove_of_ne heq]
  refine ⟨hx.fresh, hx.known, fun id' hid' => hnil (hx.keys id' hid'), ?_, hx.transmitted,
    fun id' u hu => hx.tracked id' u (hmem hu), fun hserving id' u hu =>
      hx.counted hserving id' u (hmem hu), hx.paced, ?_, ?_, ?_⟩
  · intro id'
    by_cases heq : id' = id
    · rw [heq, entries_remove_self]
      exact Nat.zero_le _
    · rw [entries_remove_of_ne heq]
      exact hx.unique id'
  · intro id' msg heq
    rw [hs] at heq
    cases heq
  · intro frame heq
    rw [hs] at heq
    cases heq
  · intro x hx'
    rcases List.mem_cons.1 hx' with rfl | hold
    · refine ⟨Nat.le_refl _, fun _ => ⟨?_, entries_remove_self unacked id⟩⟩
      intro frame hframe
      rw [List.drop_length] at hframe
      cases hframe
    · obtain ⟨hle, hdone⟩ := hx.acked x hold
      refine ⟨hle, fun hsent => ?_⟩
      obtain ⟨hlater, hentries⟩ := hdone hsent
      exact ⟨hlater, hnil hentries⟩

theorem framesOf_tick (hx : Exchanged ack h unacked e) (iter : MapOrder) (now : ℕ)
    (id : String) :
    Handler.framesOf { h with
      socket := h.socket ++ (iter.order unacked).filterMap (retransmission ack now) } id =
        h.framesOf id ++
          (Unacked.entries unacked id).filterMap (fun u => retransmission ack now (id, u)) := by
  rw [framesOf_append, retransmissions_of iter (hx.unique id)]

/-- A tick for one id. -/
theorem Exchanged.tick_of_id (hx : Exchanged ack h unacked e) (hs : h.stage = .idle)
    (now : ℕ) (id : String) {frames : List Frame}
    (hframes : frames = h.framesOf id ++
      (Unacked.entries unacked id).filterMap (fun u => retransmission ack now (id, u))) :
    Transmitted ack frames ∧
      ∀ u ∈ Unacked.entries (unacked.filterMap (retransmit ack now)) id,
        Tracked ack frames u ∧ frames.length = u.retry_count + 1 := by
  rw [hframes, entries_filterMap]
  rcases entries_cases (hx.unique id) with hentries | ⟨u, hentries⟩
  · rw [hentries]
    simpa using hx.transmitted id
  · have hu : u ∈ Unacked.entries unacked id := by
      rw [hentries]
      exact List.mem_singleton_self u
    have hcount := hx.counted_of_phase (by rw [hs]; rfl) (by simp [hs, Stage.phase]) hu
    obtain ⟨hsent, hkept⟩ := (hx.tracked id u hu).tick (hx.transmitted id) hcount id now
    have hlist : [u].filterMap (fun u => retransmission ack now (id, u)) =
        (retransmission ack now (id, u)).toList := by
      cases hr : retransmission ack now (id, u) <;> simp [hr]
    rw [hentries, hlist]
    refine ⟨hsent, ?_⟩
    intro u' hu'
    obtain ⟨u₀, hu₀, heq⟩ := List.mem_filterMap.1 hu'
    rw [List.mem_singleton.1 hu₀] at heq
    obtain ⟨entry, hentry, rfl⟩ := Option.map_eq_some_iff.1 heq
    exact hkept entry hentry

theorem Exchanged.tick (hx : Exchanged ack h unacked e) (hs : h.stage = .idle) (iter : MapOrder)
    (now : ℕ) :
    Exchanged ack
      { h with
        socket := h.socket ++ (iter.order unacked).filterMap (retransmission ack now) }
      (unacked.filterMap (retransmit ack now)) e := by
  have htick (id : String) := hx.tick_of_id hs now id (framesOf_tick hx iter now id)
  refine ⟨?_, ?_, ?_, ?_, fun id => (htick id).1, fun id u hu => ((htick id).2 u hu).1,
    fun _ id u hu => .inr ((htick id).2 u hu).2, ?_, ?_, ?_, ?_⟩
  · intro habsent
    exact absurd (hs.symm.trans habsent) nofun
  · intro f hf
    rcases List.mem_append.1 hf with hold | hnew
    · exact hx.known f hold
    · obtain ⟨entry, hentry, hsent⟩ := List.mem_filterMap.1 hnew
      refine ⟨entry.1, ?_, retransmission_id hsent⟩
      by_contra hid
      have hmem : entry.2 ∈ Unacked.entries unacked entry.1 :=
        mem_entries_iff.2 ((iter.perm unacked).mem_iff.1 hentry)
      rw [hx.keys entry.1 hid] at hmem
      cases hmem
  · intro id hid
    rw [entries_filterMap, hx.keys id hid]
    rfl
  · intro id
    rw [entries_filterMap]
    exact Nat.le_trans (List.length_filterMap_le ..) (hx.unique id)
  · intro hserving
    rw [delivered_retransmit h retry_ne_zero_of_mem]
    exact hx.paced hserving
  · intro id msg heq
    exact absurd (hs.symm.trans heq) nofun
  · intro frame heq
    exact absurd (hs.symm.trans heq) nofun
  · refine hx.acked_append fun id _ hentries => ⟨?_, ?_⟩
    · intro g hg hid
      have hmem : g ∈ ((iter.order unacked).filterMap (retransmission ack now)).filter
          (fun frame => frame.id = some id) :=
        List.mem_filter.2 ⟨hg, decide_eq_true hid⟩
      rw [retransmissions_of iter (hx.unique id), hentries] at hmem
      cases hmem
    · rw [entries_filterMap, hentries]
      rfl

end Exchanged

end Rszero.WebSocket
