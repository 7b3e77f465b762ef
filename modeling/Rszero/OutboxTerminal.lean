import Rszero.OutboxSafety

/-!
# Published rows that are put back

The update after a failed attempt is keyed by `msg_id` alone, so a slow sweeper overwrites the
status of a row that another worker has published meanwhile. The history variable keeps the ids of
the rows that have ever been published.
-/

namespace Rszero.Outbox

def published (rows : List Row) : List String :=
  (rows.filter (fun row => row.status = .published)).map Row.msg_id

def withPublished (config : Config) : TransitionSystem (State × List String) Label :=
  (system config).observe [] (fun seen _ _ s' => published s'.rows ++ seen)

/-- Rows that have been published still are, and no sweep selects them. -/
def Terminal (config : Config) (x : State × List String) : Prop :=
  ∀ row ∈ x.1.rows, row.msg_id ∈ x.2 → row.status = .published ∧ ¬ Eligible config row

def failureTarget (s : State) (a : Label) : Option String :=
  match s.workers a.worker, a.action with
  | .recording msg_id _ _, .update => some msg_id
  | _, _ => none

/-- The step records no failure on a published row. -/
def SparesPublished (s : State) (a : Label) : Prop :=
  ∀ row ∈ s.rows, failureTarget s a = some row.msg_id → row.status ≠ .published

instance (s : State) (a : Label) : Decidable (SparesPublished s a) :=
  inferInstanceAs (Decidable (∀ row ∈ s.rows, _))

section Invariant

variable {config : Config} {x y : State × List String} {a : Label}

/-- The history has the ids of the published rows. -/
structure Tracked (x : State × List String) : Prop where
  unique : (x.1.rows.map Row.msg_id).Nodup
  published_of_seen : ∀ row ∈ x.1.rows, row.msg_id ∈ x.2 → row.status = .published
  seen_of_published : ∀ row ∈ x.1.rows, row.status = .published → row.msg_id ∈ x.2
  known : ∀ msg_id ∈ x.2, msg_id ∈ x.1.rows.map Row.msg_id

theorem mem_published {rows : List Row} {msg_id : String} :
    msg_id ∈ published rows ↔ ∃ row ∈ rows, row.status = .published ∧ row.msg_id = msg_id := by
  simp [published, and_assoc]

theorem not_eligible_of_published {row : Row} (h : row.status = .published) :
    ¬ Eligible config row := by
  rintro ⟨hstatus, -⟩
  simp [h] at hstatus

theorem record_of_failureTarget {s s' : State} (hnext : s.next config a = some s') {row : Row}
    (htarget : failureTarget s a = some row.msg_id) (hrow : row ∈ s.rows) :
    ∃ retry_count, recordFailure config retry_count row ∈ s'.rows := by
  unfold failureTarget at htarget
  split at htarget
  · rename_i msg_id retry_count rest hw haction
    obtain rfl : msg_id = row.msg_id := Option.some.inj htarget
    have hmove := next_move hnext
    rw [haction] at hmove
    cases hmove with
    | mark hw' =>
        rw [hw] at hw'
        cases hw'
    | record hw' =>
        obtain ⟨-, rfl, -⟩ := Pc.recording.inj (hw.symm.trans hw')
        obtain rfl := Pc.recording.inj (hw.symm.trans hw') |>.1
        exact ⟨retry_count, mem_updateRow.2 ⟨row, hrow, if_pos rfl⟩⟩
  · cases htarget

namespace Tracked

theorem terminal (h : Tracked x) : Terminal config x := by
  intro row hrow hseen
  have hstatus := h.published_of_seen row hrow hseen
  exact ⟨hstatus, not_eligible_of_published hstatus⟩

theorem initial : Tracked (withPublished config).init where
  unique := List.nodup_nil
  published_of_seen _ hrow := absurd hrow List.not_mem_nil
  seen_of_published _ hrow := absurd hrow List.not_mem_nil
  known _ hid := absurd hid List.not_mem_nil

/-- The rows of the next state that have been seen published still are. -/
theorem kept (h : Tracked x) {s' : State} {w : WorkerId} {action : Action}
    (hmove : Move config x.1 w action s') (hspares : SparesPublished x.1 ⟨w, action⟩) :
    ∀ row ∈ s'.rows, row.msg_id ∈ x.2 → row.status = .published := by
  intro row' hrow' hseen
  cases hmove with
  | publishInTxn hw hnew | insert hw hnew =>
      rcases List.mem_append.1 hrow' with hmem | hmem
      · exact h.published_of_seen row' hmem hseen
      · obtain rfl := List.mem_singleton.1 hmem
        exact absurd (h.known _ hseen) hnew
  | mark =>
      obtain ⟨row, hmem, rfl⟩ := mem_updateRow.1 hrow'
      split_ifs at hseen ⊢
      · rfl
      · exact h.published_of_seen row hmem hseen
  | record hw =>
      obtain ⟨row, hmem, rfl⟩ := mem_updateRow.1 hrow'
      split_ifs at hseen ⊢ with hid
      · have hnot := hspares row hmem (by simp [failureTarget, hw, hid])
        exact absurd (h.published_of_seen row hmem hseen) hnot
      · exact h.published_of_seen row hmem hseen
  | _ => exact h.published_of_seen row' hrow' hseen

theorem next (h : Tracked x) (hspares : SparesPublished x.1 a)
    (hstep : (withPublished config).step x a = some y) : Tracked y := by
  obtain ⟨hnext, hseen'⟩ := TransitionSystem.observe_step_eq_some.1 hstep
  have hmove := next_move hnext
  have hunique := hmove.unique h.unique
  refine ⟨hunique, ?_, ?_, ?_⟩
  · intro row hrow hseen
    rw [hseen', List.mem_append] at hseen
    rcases hseen with hseen | hseen
    · obtain ⟨row', hrow', hstatus, hid⟩ := mem_published.1 hseen
      obtain rfl := List.inj_on_of_nodup_map hunique hrow' hrow hid
      exact hstatus
    · exact h.kept hmove hspares row hrow hseen
  · intro row hrow hstatus
    rw [hseen', List.mem_append]
    exact .inl (mem_published.2 ⟨row, hrow, hstatus, rfl⟩)
  · intro msg_id hid
    rw [hseen', List.mem_append] at hid
    rcases hid with hid | hid
    · obtain ⟨row, hrow, -, rfl⟩ := mem_published.1 hid
      exact List.mem_map_of_mem hrow
    · exact hmove.msg_ids (h.known msg_id hid)

theorem not_next (h : Tracked x) (hspares : ¬ SparesPublished x.1 a)
    (hstep : (withPublished config).step x a = some y) : ¬ Terminal config y := by
  obtain ⟨hnext, hseen'⟩ := TransitionSystem.observe_step_eq_some.1 hstep
  unfold SparesPublished at hspares
  push Not at hspares
  obtain ⟨row, hrow, htarget, hstatus⟩ := hspares
  obtain ⟨retry_count, hrow'⟩ := record_of_failureTarget hnext htarget hrow
  intro hterminal
  have hseen : (recordFailure config retry_count row).msg_id ∈ y.2 := by
    rw [hseen', List.mem_append]
    exact .inr (h.seen_of_published row hrow hstatus)
  have hpublished := (hterminal _ hrow' hseen).1
  simp only [recordFailure] at hpublished
  split_ifs at hpublished

end Tracked
end Invariant

/-- A run keeps the published rows published exactly when none of its steps records a failure on a
row that is published by then. -/
theorem terminal_iff_sparesPublished (config : Config) {run : List Label}
    {x : State × List String}
    (hrun : (withPublished config).exec (withPublished config).init run = some x) :
    (withPublished config).Throughout (Terminal config) (withPublished config).init run ↔
      (withPublished config).Along (fun x a => SparesPublished x.1 a) (withPublished config).init
        run :=
  TransitionSystem.throughout_iff_along (I := Tracked) (fun _ h => h.terminal)
    (fun _ _ _ h hspares hstep => h.next hspares hstep)
    (fun _ _ _ h hspares hstep => h.not_next hspares hstep) .initial hrun

/-- The first attempt of a sweeper fails, and a second sweeper publishes the row. -/
def republishedRun : List Label :=
  [⟨0, .publish uuidA "order.created" "42"⟩, ⟨0, .insert 0⟩, ⟨0, .fail⟩, ⟨1, .sweep⟩,
    ⟨1, .select [orderRow]⟩, ⟨1, .fail⟩, ⟨1, .update⟩, ⟨2, .sweep⟩,
    ⟨2, .select [{ orderRow with retry_count := 1 }]⟩, ⟨2, .push uuidA⟩, ⟨2, .update⟩]

theorem terminal_iff_sparesPublished_republished :
    ∃ x, (withPublished ⟨5, id⟩).exec (withPublished ⟨5, id⟩).init republishedRun = some x ∧
      x.1.rows = [{ orderRow with status := .published, retry_count := 1 }] ∧
      (withPublished ⟨5, id⟩).Throughout (Terminal ⟨5, id⟩) (withPublished ⟨5, id⟩).init
        republishedRun := by
  obtain ⟨x, he, hp⟩ := ((withPublished ⟨5, id⟩).guard
    (fun x a => SparesPublished x.1 a)).exists_exec
    (s := (withPublished ⟨5, id⟩).init) (r := republishedRun)
    (p := fun x => x.1.rows = [{ orderRow with status := .published, retry_count := 1 }])
    (by decide +kernel)
  obtain ⟨hexec, halong⟩ := TransitionSystem.exec_of_guard_exec he
  exact ⟨x, hexec, of_decide_eq_true hp, (terminal_iff_sparesPublished ⟨5, id⟩ hexec).2 halong⟩

/-- A sweeper reads the pending row, the publisher publishes it, and the push of the sweeper
fails. -/
def overwrittenRun : List Label :=
  [⟨0, .publish uuidA "order.created" "42"⟩, ⟨0, .insert 0⟩, ⟨1, .sweep⟩,
    ⟨1, .select [orderRow]⟩, ⟨0, .push uuidA⟩, ⟨0, .update⟩, ⟨1, .fail⟩, ⟨1, .update⟩]

/-- The published row is pending again, and the next sweep selects it. -/
theorem overwritten_not_terminal :
    ∃ x, (withPublished ⟨5, id⟩).exec (withPublished ⟨5, id⟩).init overwrittenRun = some x ∧
      ¬ Terminal ⟨5, id⟩ x ∧ ∀ row ∈ x.1.rows, row.status = .pending ∧ Eligible ⟨5, id⟩ row := by
  obtain ⟨x, he, hp⟩ := (withPublished ⟨5, id⟩).exists_exec
    (s := (withPublished ⟨5, id⟩).init) (r := overwrittenRun)
    (p := fun x => x.1.rows = [{ orderRow with retry_count := 1 }] ∧ orderRow.msg_id ∈ x.2)
    (by decide +kernel)
  obtain ⟨hrows, hseen⟩ := of_decide_eq_true hp
  refine ⟨x, he, ?_, ?_⟩
  · intro hterminal
    have hpublished := (hterminal { orderRow with retry_count := 1 } (by simp [hrows]) hseen).1
    cases hpublished
  · rw [hrows]
    decide

end Rszero.Outbox
