import Mathlib.Data.Nat.Basic
import Mathlib.Order.Nat
import Rszero.StreamsBackend
import Rszero.TransitionSystem

/-!
# Acknowledging by identifier

`ack` takes the pending entry of the message that was handed out, and no other one, as long as no
identifier is handed out from two topics, and no pending message that `consume` has not handed out
is claimed.
-/

namespace Rszero.Queue.Streams

open Outbox (Message)

variable {ι κ Text : Type} [LinearOrder ι]

/-- In `claimPending` the environment tells how long each entry has been idle. -/
inductive Label (ι κ : Type)
  | publish (m : Message) (id : ι)
  | consume (topic : String) (consumer : κ)
  | subscribe (topic : String)
  | deliverFailed (topic : String) (consumer : κ)
  | claimPending (topic : String) (consumer : κ) (min_idle_ms count : ℕ) (idle : ι → ℕ)
  | ack (id : ι)

variable (json : SerdeJson Text) (refusal : Text → String)

def system : TransitionSystem (State ι κ Text) (Label ι κ) where
  init := .new
  step s a := match a with
    | .publish m id => publish json s m id
    | .consume topic consumer => some (consume json refusal s topic consumer).2
    | .subscribe topic => some (ensureGroup s topic)
    | .deliverFailed topic consumer => some (deliver json refusal s topic consumer false)
    | .claimPending topic consumer min_idle_ms count idle =>
        some (claimPending json refusal s topic consumer min_idle_ms count idle).2
    | .ack id => some (ack s id)

abbrev Handed (ι : Type) := List (String × ι)

def note (handed : Handed ι) (s : State ι κ Text) (a : Label ι κ) (_ : State ι κ Text) :
    Handed ι :=
  match a with
  | .consume topic consumer =>
      match (consume json refusal s topic consumer).1 with
      | .ok (some m) => handed ++ [(topic, m.id)]
      | _ => handed
  | .claimPending topic consumer min_idle_ms count idle =>
      handed ++ (claimPending json refusal s topic consumer min_idle_ms count idle).1.map
        (fun m => (topic, m.id))
  | _ => handed

def observed : TransitionSystem (State ι κ Text × Handed ι) (Label ι κ) :=
  (system json refusal).observe [] (note json refusal)

/-- Acknowledging a message that was handed out removes its entry and leaves all others. -/
def AckExact (x : State ι κ Text × Handed ι) : Prop :=
  ∀ topic id, (topic, id) ∈ x.2 → ∀ topic', (ack x.1 id).pel topic' =
    if topic' = topic then (x.1.pel topic').filter (fun p => p.id ≠ id) else x.1.pel topic'

/-- `consume` hands out a new identifier, and `claim_pending` only what was handed out before. -/
def Known (x : State ι κ Text × Handed ι) : Label ι κ → Prop
  | .consume topic consumer => ∀ m, (consume json refusal x.1 topic consumer).1 = .ok (some m) →
      ∀ topic', (topic', m.id) ∉ x.2
  | .claimPending topic consumer min_idle_ms count idle =>
      ∀ m ∈ (claimPending json refusal x.1 topic consumer min_idle_ms count idle).1,
        (topic, m.id) ∈ x.2
  | _ => True

/-- The hash knows the pending messages that were handed out. -/
def Mapped (s : State ι κ Text) (handed : Handed ι) : Prop :=
  ∀ topic id, (topic, id) ∈ handed →
    s.hash id = some topic ∨ s.hash id = none ∧ id ∉ (s.pel topic).map Pending.id

structure Sound (s : State ι κ Text) (handed : Handed ι) : Prop where
  hashed : ∀ topic id, s.hash id = some topic →
    (topic, id) ∈ handed ∧ id ∈ (s.pel topic).map Pending.id
  delivered : ∀ topic id, (topic, id) ∈ handed → s.Delivered topic id

variable {json refusal} {s s' : State ι κ Text} {handed : Handed ι} {topic : String} {id : ι}

theorem ack_of_some (h : s.hash id = some topic) : ack s id = ackTopic s topic id := by
  rw [ack, topicForId, h]

theorem ack_of_none (h : s.hash id = none) : ack s id = s := by
  rw [ack, topicForId, h]

theorem filter_id_eq_self_iff {ps : List (Pending ι κ)} :
    ps.filter (fun p => p.id ≠ id) = ps ↔ id ∉ ps.map Pending.id := by
  simp [List.filter_eq_self]

theorem ackExact_iff_mapped (h : Sound s handed) : AckExact (s, handed) ↔ Mapped s handed := by
  constructor
  · intro hexact topic id hmem
    cases hhash : s.hash id with
    | none =>
        have hsame := hexact topic id hmem topic
        rw [ack_of_none hhash, if_pos rfl] at hsame
        exact .inr ⟨rfl, filter_id_eq_self_iff.1 hsame.symm⟩
    | some topic₀ =>
        by_cases ht : topic₀ = topic
        · exact .inl (ht ▸ rfl)
        · have hother := hexact topic id hmem topic₀
          rw [ack_of_some hhash, pel_ackTopic, if_pos rfl, if_neg ht] at hother
          exact absurd (h.hashed topic₀ id hhash).2 (filter_id_eq_self_iff.1 hother)
  · intro hmapped topic id hmem topic'
    rcases hmapped topic id hmem with hhash | ⟨hhash, hnot⟩
    · rw [ack_of_some hhash, pel_ackTopic]
    · rw [ack_of_none hhash]
      split_ifs with ht
      · exact (filter_id_eq_self_iff.2 (ht ▸ hnot)).symm
      · rfl

theorem Sound.keeps (h : Sound s handed) (hk : Keeps s s') : Sound s' handed where
  hashed topic id hhash := by
    rw [hk.hash] at hhash
    rw [hk.ids]
    exact h.hashed topic id hhash
  delivered topic id hmem := hk.delivered topic id (h.delivered topic id hmem)

theorem mapped_keeps_iff (hk : Keeps s s') : Mapped s' handed ↔ Mapped s handed := by
  unfold Mapped
  simp only [hk.hash, hk.ids]

theorem Sound.hands (h : Sound s handed) (hh : Hands s s' topic id) : Sound s' handed where
  hashed topic' id' hhash := by
    rw [hh.hash] at hhash
    obtain ⟨hmem, hpel⟩ := h.hashed topic' id' hhash
    refine ⟨hmem, ?_⟩
    rw [hh.ids]
    split_ifs
    · exact List.mem_append_left _ hpel
    · exact hpel
  delivered topic' id' hmem := hh.delivered topic' id' (h.delivered topic' id' hmem)

/-- An entry that is new to the group is not that of a message handed out. -/
theorem mapped_hands_iff (h : Sound s handed) (hh : Hands s s' topic id) :
    Mapped s' handed ↔ Mapped s handed := by
  have hids (topic' : String) (id' : ι) (hmem : (topic', id') ∈ handed) :
      id' ∈ (s'.pel topic').map Pending.id ↔ id' ∈ (s.pel topic').map Pending.id := by
    rw [hh.ids]
    split_ifs with ht
    · have hne : id' ≠ id := by
        rintro rfl
        exact hh.fresh (ht ▸ h.delivered topic' id' hmem)
      simp [hne]
    · rfl
  unfold Mapped
  rw [hh.hash]
  constructor
  · intro hm topic' id' hmem
    exact (hm topic' id' hmem).imp_right
      (fun hn => ⟨hn.1, fun hpel => hn.2 ((hids _ _ hmem).2 hpel)⟩)
  · intro hm topic' id' hmem
    exact (hm topic' id' hmem).imp_right
      (fun hn => ⟨hn.1, fun hpel => hn.2 ((hids _ _ hmem).1 hpel)⟩)

@[simp] theorem hash_hsetnx (id' : ι) : (s.hsetnx id topic).hash id' =
    if id' = id then some ((s.hash id).getD topic) else s.hash id' := by
  simp [State.hsetnx, Function.update_apply]

theorem Sound.hand (h : Sound s handed) (hh : Hands s s' topic id) :
    Sound (s'.hsetnx id topic) (handed ++ [(topic, id)]) where
  hashed topic' id' hhash := by
    have hpel : (s'.hsetnx id topic).pel topic' = s'.pel topic' := rfl
    rw [hash_hsetnx, hh.hash] at hhash
    rw [hpel]
    by_cases hold : s.hash id' = some topic'
    · obtain ⟨hmem, hin⟩ := (h.hands hh).hashed topic' id' (hh.hash ▸ hold)
      exact ⟨List.mem_append_left _ hmem, hin⟩
    · split_ifs at hhash with hid
      · subst hid
        cases hnew : s.hash id' with
        | some topic₀ =>
            rw [hnew] at hhash hold
            exact absurd hhash hold
        | none =>
            rw [hnew, Option.getD_none] at hhash
            obtain rfl := Option.some.inj hhash
            exact ⟨by simp, by simp [hh.ids]⟩
      · exact absurd hhash hold
  delivered topic' id' hmem := by
    rcases List.mem_append.1 hmem with hmem | hmem
    · exact hh.delivered topic' id' (h.delivered topic' id' hmem)
    · obtain ⟨rfl, rfl⟩ := Prod.mk.inj (List.mem_singleton.1 hmem)
      exact hh.now

/-- The first topic that hands out an identifier has it in the hash. -/
theorem mapped_hand_iff (h : Sound s handed) (hh : Hands s s' topic id)
    (hm : Mapped s handed) :
    Mapped (s'.hsetnx id topic) (handed ++ [(topic, id)]) ↔ ∀ topic', (topic', id) ∉ handed := by
  have hfresh : (topic, id) ∉ handed := fun hmem => hh.fresh (h.delivered topic id hmem)
  constructor
  · intro hm' topic' hmem
    have hne : topic' ≠ topic := by
      rintro rfl
      exact hfresh hmem
    have hnew := hm' topic id (by simp)
    have hold := hm' topic' id (List.mem_append_left _ hmem)
    rw [hash_hsetnx, if_pos rfl] at hnew hold
    have hsome := hnew.resolve_right (by simp)
    rw [hsome] at hold
    have htopic : topic = topic' := by simpa using hold
    exact hne htopic.symm
  · intro hnot topic' id' hmem
    rcases List.mem_append.1 hmem with hin | hin
    · have hne : id' ≠ id := by
        rintro rfl
        exact hnot topic' hin
      rw [hash_hsetnx, if_neg hne]
      exact (mapped_hands_iff h hh).2 hm topic' id' hin
    · obtain ⟨rfl, rfl⟩ := Prod.mk.inj (List.mem_singleton.1 hin)
      have hnone : s'.hash id' = none := by
        rw [hh.hash, Option.eq_none_iff_forall_ne_some]
        exact fun topic₀ hhash => hnot topic₀ (h.hashed topic₀ id' hhash).1
      rw [hash_hsetnx, if_pos rfl, hnone]
      exact .inl rfl

/-- Claimed messages that are handed out. -/
theorem Sound.claim (h : Sound s handed) (hk : Keeps s s') {ms : List (Received ι)}
    (hms : ∀ m ∈ ms, m.id ∈ (s.pel topic).map Pending.id) :
    Sound s' (handed ++ ms.map (fun m => (topic, m.id))) where
  hashed topic' id' hhash := by
    obtain ⟨hmem, hpel⟩ := (h.keeps hk).hashed topic' id' hhash
    exact ⟨List.mem_append_left _ hmem, hpel⟩
  delivered topic' id' hmem := by
    rcases List.mem_append.1 hmem with hmem | hmem
    · exact hk.delivered topic' id' (h.delivered topic' id' hmem)
    · obtain ⟨m, hm, heq⟩ := List.mem_map.1 hmem
      obtain ⟨rfl, rfl⟩ := Prod.mk.inj heq
      obtain ⟨p, hp, hid⟩ := List.mem_map.1 (hms m hm)
      exact hk.delivered topic m.id (hid ▸ RedisStream.delivered_of_mem_pel hp)

theorem mapped_claim_iff (h : Sound s handed) (hk : Keeps s s') (hm : Mapped s handed)
    {ms : List (Received ι)} (hms : ∀ m ∈ ms, m.id ∈ (s.pel topic).map Pending.id) :
    Mapped s' (handed ++ ms.map (fun m => (topic, m.id))) ↔ ∀ m ∈ ms, (topic, m.id) ∈ handed := by
  have hm' := (mapped_keeps_iff hk).2 hm
  constructor
  · intro hmapped m hmem
    have hpel := hms m hmem
    rw [← hk.ids] at hpel
    have hclaimed : (topic, m.id) ∈ ms.map (fun m => (topic, m.id)) := List.mem_map_of_mem hmem
    rcases hmapped topic m.id (List.mem_append_right _ hclaimed) with hhash | ⟨-, hnot⟩
    · exact (h.hashed topic m.id (hk.hash ▸ hhash)).1
    · exact absurd hpel hnot
  · intro hold topic' id' hmem
    rcases List.mem_append.1 hmem with hmem | hmem
    · exact hm' topic' id' hmem
    · obtain ⟨m, hin, heq⟩ := List.mem_map.1 hmem
      obtain ⟨rfl, rfl⟩ := Prod.mk.inj heq
      exact hm' topic m.id (hold m hin)

theorem hash_ackTopic (id' : ι) :
    (ackTopic s topic id).hash id' = if id' = id then none else s.hash id' := by
  simp [ackTopic, State.hdel, State.setStream, Function.update_apply]

theorem mem_ids_ackTopic {topic' : String} {id' : ι} :
    id' ∈ ((ackTopic s topic id).pel topic').map Pending.id ↔
      id' ∈ (s.pel topic').map Pending.id ∧ ¬ (topic' = topic ∧ id' = id) := by
  rw [pel_ackTopic]
  split_ifs with ht
  · simp only [List.mem_map, List.mem_filter, decide_eq_true_eq, ht, true_and]
    constructor
    · rintro ⟨p, ⟨hp, hne⟩, rfl⟩
      exact ⟨⟨p, hp, rfl⟩, hne⟩
    · rintro ⟨⟨p, hp, rfl⟩, hne⟩
      exact ⟨p, ⟨hp, hne⟩, rfl⟩
  · simp [ht]

theorem Sound.ack (h : Sound s handed) (id : ι) : Sound (ack s id) handed := by
  cases hhash : s.hash id with
  | none =>
      rw [ack_of_none hhash]
      exact h
  | some topic =>
      rw [ack_of_some hhash]
      refine ⟨fun topic' id' hhash' => ?_, fun topic' id' hmem =>
        delivered_ackTopic (h.delivered topic' id' hmem)⟩
      rw [hash_ackTopic] at hhash'
      split_ifs at hhash' with hid
      obtain ⟨hmem, hpel⟩ := h.hashed topic' id' hhash'
      exact ⟨hmem, mem_ids_ackTopic.2 ⟨hpel, fun heq => hid heq.2⟩⟩

theorem Mapped.ack (hm : Mapped s handed) (id : ι) : Mapped (ack s id) handed := by
  cases hhash : s.hash id with
  | none =>
      rw [ack_of_none hhash]
      exact hm
  | some topic =>
      rw [ack_of_some hhash]
      intro topic' id' hmem
      rw [hash_ackTopic, mem_ids_ackTopic]
      by_cases hid : id' = id
      · subst hid
        -- The topic in the hash is the only one that has handed out the identifier.
        have htopic : topic' = topic := by
          rcases hm topic' id' hmem with hsome | ⟨hnone, -⟩
          · exact Option.some.inj (hsome.symm.trans hhash)
          · rw [hnone] at hhash
            cases hhash
        exact .inr ⟨if_pos rfl, fun hin => hin.2 ⟨htopic, rfl⟩⟩
      · rw [if_neg hid]
        exact (hm topic' id' hmem).imp_right (fun hn => ⟨hn.1, fun hin => hn.2 hin.1⟩)

variable {x y : State ι κ Text × Handed ι} {a : Label ι κ}

theorem note_consume {consumer : κ}
    (h : ∀ m, (consume json refusal s topic consumer).1 ≠ .ok (some m)) :
    note json refusal handed s (.consume topic consumer) s' = handed := by
  unfold note
  dsimp only
  split
  · rename_i m hm
    exact absurd hm (h m)
  · rfl

theorem sound_step (h : Sound s handed) (hstep : (system json refusal).step s a = some s') :
    Sound s' (note json refusal handed s a s') := by
  cases a with
  | publish m id => exact h.keeps (keeps_publish hstep)
  | consume topic consumer =>
      obtain rfl := Option.some.inj hstep
      rcases consume_spec json refusal s topic consumer with ⟨hnone, hread⟩ | ⟨m, s₁, hres, heq, hh⟩
      · rw [note_consume hnone]
        rcases hread with hk | ⟨id, hh⟩
        · exact h.keeps hk
        · exact h.hands hh
      · simp only [note, hres, heq]
        exact h.hand hh
  | subscribe topic =>
      obtain rfl := Option.some.inj hstep
      exact h.keeps (keeps_ensureGroup s topic)
  | deliverFailed topic consumer =>
      obtain rfl := Option.some.inj hstep
      rcases deliver_spec json refusal s topic consumer with hk | ⟨id, hh⟩
      · exact h.keeps hk
      · exact h.hands hh
  | claimPending topic consumer min_idle_ms count idle =>
      obtain rfl := Option.some.inj hstep
      exact h.claim (keeps_claimPending ..) (fun m hm => mem_pel_of_mem_claimPending hm)
  | ack id =>
      obtain rfl := Option.some.inj hstep
      exact h.ack id

/-- A step keeps what the hash knows if and only if it hands out nothing unknown. -/
theorem mapped_step_iff (h : Sound s handed) (hm : Mapped s handed)
    (hstep : (system json refusal).step s a = some s') :
    Mapped s' (note json refusal handed s a s') ↔ Known json refusal (s, handed) a := by
  cases a with
  | publish m id => exact iff_of_true ((mapped_keeps_iff (keeps_publish hstep)).2 hm) trivial
  | consume topic consumer =>
      obtain rfl := Option.some.inj hstep
      rcases consume_spec json refusal s topic consumer with ⟨hnone, hread⟩ | ⟨m, s₁, hres, heq, hh⟩
      · rw [note_consume hnone]
        refine iff_of_true ?_ (fun m hm => absurd hm (hnone m))
        rcases hread with hk | ⟨id, hh⟩
        · exact (mapped_keeps_iff hk).2 hm
        · exact (mapped_hands_iff h hh).2 hm
      · simp only [note, Known, hres, heq]
        rw [mapped_hand_iff h hh hm]
        simp
  | subscribe topic =>
      obtain rfl := Option.some.inj hstep
      exact iff_of_true ((mapped_keeps_iff (keeps_ensureGroup s topic)).2 hm) trivial
  | deliverFailed topic consumer =>
      obtain rfl := Option.some.inj hstep
      refine iff_of_true ?_ trivial
      rcases deliver_spec json refusal s topic consumer with hk | ⟨id, hh⟩
      · exact (mapped_keeps_iff hk).2 hm
      · exact (mapped_hands_iff h hh).2 hm
  | claimPending topic consumer min_idle_ms count idle =>
      obtain rfl := Option.some.inj hstep
      exact mapped_claim_iff h (keeps_claimPending ..) hm
        (fun m hm => mem_pel_of_mem_claimPending hm)
  | ack id =>
      obtain rfl := Option.some.inj hstep
      exact iff_of_true (hm.ack id) trivial

/-- Acknowledging is exact throughout a run if and only if `consume` hands out no identifier a
second time, and `claim_pending` nothing that was not handed out before. -/
theorem ackExact_iff_known {as : List (Label ι κ)}
    (he : (observed json refusal).exec (observed json refusal).init as = some y) :
    (observed json refusal).Throughout AckExact (observed json refusal).init as ↔
      (observed json refusal).Along (Known json refusal) (observed json refusal).init as := by
  refine TransitionSystem.throughout_iff_along
    (I := fun x => Sound x.1 x.2 ∧ Mapped x.1 x.2)
    (fun x hx => (ackExact_iff_mapped hx.1).2 hx.2) ?_ ?_ ⟨⟨nofun, nofun⟩, nofun⟩ he
  · rintro x a y ⟨h, hm⟩ hc hstep
    obtain ⟨s', hs, rfl⟩ := TransitionSystem.exists_of_observe_step hstep
    exact ⟨sound_step h hs, (mapped_step_iff h hm hs).2 hc⟩
  · rintro x a y ⟨h, hm⟩ hc hstep hexact
    obtain ⟨s', hs, rfl⟩ := TransitionSystem.exists_of_observe_step hstep
    have hmapped := (ackExact_iff_mapped (sound_step h hs)).1 hexact
    exact hc ((mapped_step_iff h hm hs).1 hmapped)

def order : Message := ⟨"orders", "1", [], "a"⟩

def invoice : Message := ⟨"invoices", "1", [], "b"⟩

abbrev plain : TransitionSystem (State ℕ String Json × Handed ℕ) (Label ℕ String) :=
  observed (default : SerdeJson Json) (fun _ => "")

def acknowledged : List (Label ℕ String) :=
  [.subscribe "orders", .publish order 1, .consume "orders" "c", .ack 1]

/-- A subscriber fails, and another consumer recovers the message. -/
def recovered : List (Label ℕ String) :=
  [.subscribe "orders", .publish order 1, .deliverFailed "orders" "c",
    .claimPending "orders" "c'" 0 10 (fun _ => 0)]

def coinciding : List (Label ℕ String) :=
  [.subscribe "orders", .subscribe "invoices", .publish order 1, .publish invoice 1,
    .consume "orders" "c", .consume "invoices" "c"]

theorem ackExact_iff_known_acknowledged : ∃ y, plain.exec plain.init acknowledged = some y ∧
    (plain.Throughout AckExact plain.init acknowledged ↔
      plain.Along (Known (default : SerdeJson Json) (fun _ => "")) plain.init acknowledged) :=
  ⟨_, rfl, ackExact_iff_known rfl⟩

/-- The recovered message stays pending, and of the two with one identifier the wrong one goes. -/
theorem recovered_coinciding_not_exact :
    (∃ y, plain.exec plain.init recovered = some y ∧ y.2 = [("orders", 1)] ∧ ¬ AckExact y) ∧
    ∃ y, plain.exec plain.init coinciding = some y ∧ y.2 = [("orders", 1), ("invoices", 1)] ∧
      ¬ AckExact y := by
  constructor
  · refine ⟨_, rfl, rfl, fun h => ?_⟩
    cases congrArg List.length (h "orders" 1 (.head _) "orders")
  · refine ⟨_, rfl, rfl, fun h => ?_⟩
    cases congrArg List.length (h "invoices" 1 (.tail _ (.head _)) "invoices")

end Rszero.Queue.Streams
