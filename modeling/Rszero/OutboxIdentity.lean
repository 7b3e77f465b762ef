import Rszero.OutboxSafety

/-!
# The ids of delivered messages

`Queue.push` is given the topic and the payload only, and `Message.new` draws an id of its own for
every push. The `msg_id` of a row is a prefixed identifier, so no delivery ever carries it.
-/

namespace Rszero.Outbox

/-- Every message pushed for a row carries the id of the row, and rows with different ids push
messages with different ids. -/
structure Deduplicable (log : List Event) : Prop where
  carries : ∀ msg_id message, .pushed msg_id message ∈ log → message.id = msg_id
  distinct : ∀ msg_id message msg_id' message', .pushed msg_id message ∈ log →
    .pushed msg_id' message' ∈ log → msg_id ≠ msg_id' → message.id ≠ message'.id

def NothingPushed (log : List Event) : Prop := ∀ msg_id message, .pushed msg_id message ∉ log

theorem newMsgId_ne_text (uuid uuid' : Uuid) : uuid'.text ≠ newMsgId uuid := by
  intro h
  have hlength := congrArg String.length h
  rw [newMsgId, String.length_append, uuid'.length_text, uuid.length_text] at hlength
  revert hlength
  decide

/-- The rows that a worker will come back to. -/
def Caller.msg_ids : Caller → List String
  | .publisher => []
  | .sweeper _ rest => rest.map Swept.msg_id

def Pc.msg_ids : Pc → List String
  | .idle | .inserting _ _ _ | .selecting => []
  | .pushing job | .marking job => job.msg_id :: job.caller.msg_ids
  | .recording msg_id _ rest => msg_id :: rest.map Swept.msg_id

theorem msg_ids_sweepNext (rest : List Swept) :
    (sweepNext rest).msg_ids = rest.map Swept.msg_id := by
  cases rest with
  | nil => rfl
  | cons row rest => rfl

theorem msg_ids_succeeded (job : Job) : job.succeeded.msg_ids = job.caller.msg_ids := by
  unfold Job.succeeded
  cases job.caller with
  | publisher => rfl
  | sweeper retry_count rest => exact msg_ids_sweepNext rest

theorem msg_ids_failed (job : Job) : job.failed.msg_ids ⊆ job.msg_id :: job.caller.msg_ids := by
  unfold Job.failed
  cases job.caller with
  | publisher => exact List.nil_subset _
  | sweeper retry_count rest => exact List.Subset.refl _

structure Named (s : State) (log : List Event) : Prop where
  rows : ∀ row ∈ s.rows, ∃ uuid, row.msg_id = newMsgId uuid
  workers : ∀ w, ∀ msg_id ∈ (s.workers w).msg_ids, msg_id ∈ s.rows.map Row.msg_id
  pushed : ∀ msg_id message, .pushed msg_id message ∈ log →
    (∃ uuid, msg_id = newMsgId uuid) ∧ ∃ uuid : Uuid, message.id = uuid.text

namespace Named

variable {config : Config} {s s' : State} {w : WorkerId} {action : Action} {log : List Event}

theorem initial (config : Config) : Named (system config).init [] where
  rows _ hrow := absurd hrow List.not_mem_nil
  workers _ _ hid := absurd hid List.not_mem_nil
  pushed _ _ h := absurd h List.not_mem_nil

theorem rows_next (h : Named s log) (hmove : Move config s w action s') :
    ∀ row ∈ s'.rows, ∃ uuid, row.msg_id = newMsgId uuid := by
  intro row' hrow'
  cases hmove with
  | @publishInTxn uuid | @insert uuid =>
      rcases List.mem_append.1 hrow' with hmem | hmem
      · exact h.rows row' hmem
      · obtain rfl := List.mem_singleton.1 hmem
        exact ⟨uuid, rfl⟩
  | mark | record =>
      obtain ⟨row, hmem, rfl⟩ := mem_updateRow.1 hrow'
      split_ifs
      · exact h.rows row hmem
      · exact h.rows row hmem
  | _ => exact h.rows row' hrow'

/-- A worker comes back to rows it came back to before, to the row it inserts, or to the rows it
selects. -/
theorem self (h : Named s log) (hmove : Move config s w action s') :
    ∀ msg_id ∈ (s'.workers w).msg_ids, msg_id ∈ s'.rows.map Row.msg_id := by
  have hids := h.workers w
  have hmono {pc : Pc} (hpc : pc.msg_ids ⊆ (s.workers w).msg_ids) :
      ∀ msg_id ∈ pc.msg_ids, msg_id ∈ s'.rows.map Row.msg_id :=
    fun msg_id hid => hmove.msg_ids (hids msg_id (hpc hid))
  cases hmove with
  | publish | sweep | giveUp => simp [Pc.msg_ids]
  | publishInTxn => exact hmono (List.Subset.refl _)
  | insert => simp [Pc.msg_ids, Caller.msg_ids, pendingRow]
  | @select order hw horder =>
      rw [State.put_workers_self, msg_ids_sweepNext]
      intro msg_id hid
      simp only [List.map_map, List.mem_map, Function.comp_apply] at hid
      obtain ⟨row, hrow, rfl⟩ := hid
      have hfilter := horder.1.subset (List.mem_of_mem_take hrow)
      exact List.mem_map_of_mem (List.mem_filter.1 hfilter).1
  | push hw =>
      rw [State.put_workers_self]
      exact hmono (by simp [hw, Pc.msg_ids])
  | @mark job hw =>
      rw [State.put_workers_self]
      refine hmono ?_
      rw [hw, msg_ids_succeeded]
      exact List.subset_cons_self ..
  | @record msg_id retry_count rest hw | @failRecord msg_id retry_count rest hw =>
      rw [State.put_workers_self]
      refine hmono ?_
      rw [hw, msg_ids_sweepNext]
      exact List.subset_cons_self ..
  | @failJob job hw =>
      rw [State.put_workers_self]
      refine hmono ?_
      rcases hw with hw | hw
      · rw [hw]
        exact msg_ids_failed job
      · rw [hw]
        exact msg_ids_failed job

theorem pushed_next (h : Named s log) {a : Label} {msg_id : String} {message : Message}
    (hpushed : .pushed msg_id message ∈ noteEvent config log s a s') :
    (∃ uuid, msg_id = newMsgId uuid) ∧ ∃ uuid : Uuid, message.id = uuid.text := by
  have hnoted {job : Job} (hjob : .pushed msg_id message ∈ job.noteFailed log) :
      .pushed msg_id message ∈ log := by
    unfold Job.noteFailed at hjob
    cases hcaller : job.caller with
    | publisher => simpa [hcaller] using hjob
    | sweeper retry_count rest => simpa [hcaller] using hjob
  unfold noteEvent at hpushed
  split at hpushed
  · rename_i job uuid hw haction
    rcases List.mem_cons.1 hpushed with heq | hmem
    · obtain ⟨rfl, rfl⟩ := Event.pushed.inj heq
      have hid := h.workers a.worker job.msg_id (by simp [hw, Pc.msg_ids])
      obtain ⟨row, hrow, hrow'⟩ := List.mem_map.1 hid
      exact ⟨hrow' ▸ h.rows row hrow, uuid, rfl⟩
    · exact h.pushed _ _ hmem
  · exact h.pushed _ _ (hnoted hpushed)
  · exact h.pushed _ _ (hnoted hpushed)
  · exact h.pushed _ _ hpushed

theorem next (h : Named s log) (hmove : Move config s w action s') :
    Named s' (noteEvent config log s ⟨w, action⟩ s') where
  rows := h.rows_next hmove
  workers v := by
    by_cases hv : v = w
    · rw [hv]
      exact h.self hmove
    · rw [hmove.other hv]
      exact fun msg_id hid => hmove.msg_ids (h.workers v msg_id hid)
  pushed _ _ hpushed := h.pushed_next hpushed

theorem reachable {x : State × List Event}
    (hx : (withLog config).Reachable (fun _ _ => True) x) : Named x.1 x.2 := by
  refine hx.invariant (I := fun x => Named x.1 x.2) (initial config) ?_
  intro y a z hy _ hstep
  obtain ⟨s', hnext, rfl⟩ := TransitionSystem.exists_of_observe_step hstep
  exact hy.next (next_move hnext)

end Named

/-- The messages of a run can be told apart by the ids of their rows only as long as none is
pushed. -/
theorem deduplicable_iff_nothingPushed (config : Config) {x : State × List Event}
    (hx : (withLog config).Reachable (fun _ _ => True) x) :
    Deduplicable x.2 ↔ NothingPushed x.2 := by
  constructor
  · intro h msg_id message hpushed
    obtain ⟨⟨uuid, hrow⟩, uuid', hmessage⟩ := (Named.reachable hx).pushed msg_id message hpushed
    refine newMsgId_ne_text uuid uuid' ?_
    rw [← hrow, ← hmessage]
    exact h.carries msg_id message hpushed
  · intro h
    exact ⟨fun _ _ hpushed => absurd hpushed (h _ _),
      fun _ _ _ _ hpushed => absurd hpushed (h _ _)⟩

def unpushedRun : List Label :=
  [⟨0, .publish uuidA "order.created" "42"⟩, ⟨0, .insert 0⟩, ⟨0, .fail⟩]

theorem deduplicable_iff_nothingPushed_unpushed :
    ∃ x, (withLog ⟨5, id⟩).Reachable (fun _ _ => True) x ∧ x.1.rows = [orderRow] ∧
      Deduplicable x.2 := by
  obtain ⟨x, he, hp⟩ := (withLog ⟨5, id⟩).exists_exec
    (s := (withLog ⟨5, id⟩).init) (r := unpushedRun)
    (p := fun x => x.1.rows = [orderRow] ∧ x.2 = []) (by decide +kernel)
  obtain ⟨hrows, hlog⟩ := of_decide_eq_true hp
  have hx := TransitionSystem.Reachable.exec _ .init (fun _ _ => trivial) he
  have hnothing : NothingPushed x.2 := by
    rw [hlog]
    exact fun _ _ => List.not_mem_nil
  exact ⟨x, hx, hrows, (deduplicable_iff_nothingPushed ⟨5, id⟩ hx).2 hnothing⟩

def uuidB : Uuid := ⟨"00000000-0000-4000-8000-00000000000b", by decide⟩

def uuidC : Uuid := ⟨"00000000-0000-4000-8000-00000000000c", by decide⟩

/-- The status update after the immediate push fails, and a sweeper delivers the row again. -/
def redeliveredRun : List Label :=
  [⟨0, .publish uuidA "order.created" "42"⟩, ⟨0, .insert 0⟩, ⟨0, .push uuidB⟩, ⟨0, .fail⟩,
    ⟨1, .sweep⟩, ⟨1, .select [orderRow]⟩, ⟨1, .push uuidC⟩, ⟨1, .update⟩]

theorem redelivered_not_deduplicable :
    ∃ x, (withLog ⟨5, id⟩).Reachable (fun _ _ => True) x ∧
      x.1.queue.map Message.id = [uuidB.text, uuidC.text] ∧
      (∀ message ∈ x.1.queue, .pushed orderRow.msg_id message ∈ x.2) ∧ ¬ Deduplicable x.2 := by
  obtain ⟨x, he, hp⟩ := (withLog ⟨5, id⟩).exists_exec
    (s := (withLog ⟨5, id⟩).init) (r := redeliveredRun)
    (p := fun x => x.1.queue.map Message.id = [uuidB.text, uuidC.text] ∧
      ∀ message ∈ x.1.queue, Event.pushed orderRow.msg_id message ∈ x.2) (by decide +kernel)
  obtain ⟨hqueue, hpushed⟩ := of_decide_eq_true hp
  have hx := TransitionSystem.Reachable.exec _ .init (fun _ _ => trivial) he
  refine ⟨x, hx, hqueue, hpushed, fun hdedup => ?_⟩
  obtain ⟨message, hmessage, hid⟩ : ∃ message ∈ x.1.queue, message.id = uuidB.text := by
    rw [← List.mem_map, hqueue]
    exact List.mem_cons_self
  have hcarries := hdedup.carries _ _ (hpushed message hmessage)
  exact newMsgId_ne_text uuidA uuidB (hid.symm.trans hcarries)

end Rszero.Outbox
