import Rszero.OutboxSafety

/-!
# One sweeper

While one worker does all the sweeping, the rows that it still has to settle are in the table with
the retry counts that it read, and no two of them are the same row.
-/

namespace Rszero.Outbox

deriving instance DecidableEq for Uuid, Action

def SweptBy (w : WorkerId) (a : Label) : Prop := a.action = .sweep → a.worker = w

instance (w : WorkerId) (a : Label) : Decidable (SweptBy w a) := inferInstanceAs (Decidable (_ → _))

def Swept.read (row : Swept) : String × ℤ := (row.msg_id, row.retry_count)

def Job.due (job : Job) : List (String × ℤ) :=
  match job.caller with
  | .publisher => []
  | .sweeper retry_count rest => (job.msg_id, retry_count) :: rest.map Swept.read

/-- The rows of a sweep whose outcome is not in the table yet, with the counts that it read. -/
def Pc.due : Pc → List (String × ℤ)
  | .idle | .inserting _ _ _ | .selecting => []
  | .pushing job | .marking job => job.due
  | .recording msg_id retry_count rest => (msg_id, retry_count) :: rest.map Swept.read

@[simp] theorem due_sweepNext (rest : List Swept) : (sweepNext rest).due = rest.map Swept.read := by
  cases rest with
  | nil => rfl
  | cons row rest => rfl

theorem due_succeeded (job : Job) : job.succeeded.due = job.due.tail := by
  unfold Job.succeeded Job.due
  cases job.caller with
  | publisher => rfl
  | sweeper retry_count rest => exact due_sweepNext rest

theorem due_failed (job : Job) : job.failed.due = job.due := by
  unfold Job.failed Job.due
  cases job.caller with
  | publisher => rfl
  | sweeper retry_count rest => rfl

theorem sweepNext_ne_selecting (rest : List Swept) : sweepNext rest ≠ .selecting := by
  cases rest with
  | nil => nofun
  | cons row rest => nofun

theorem succeeded_ne_selecting (job : Job) : job.succeeded ≠ .selecting := by
  unfold Job.succeeded
  cases job.caller with
  | publisher => nofun
  | sweeper retry_count rest => exact sweepNext_ne_selecting rest

theorem failed_ne_selecting (job : Job) : job.failed ≠ .selecting := by
  unfold Job.failed
  cases job.caller with
  | publisher => nofun
  | sweeper retry_count rest => nofun

/-- The other workers only publish, and what the sweeper keeps is in the table. -/
structure SoleSweeper (config : Config) (w : WorkerId) (s : State) : Prop where
  others : ∀ v, v ≠ w → s.workers v ≠ .selecting ∧ (s.workers v).due = []
  distinct : ((s.workers w).due.map Prod.fst).Nodup
  current : ∀ msg_id retry_count, (msg_id, retry_count) ∈ (s.workers w).due →
    retry_count < config.max_retries.toNat ∧
      ∃ row ∈ s.rows, row.msg_id = msg_id ∧ row.retry_count = retry_count

section Sweeper

variable {config : Config} {s s' : State} {w v : WorkerId} {action : Action} {log : List Event}

/-- A worker that has nothing due and selects nothing gets nothing due. -/
theorem Move.due_nil (h : Move config s v action s') (hselecting : s.workers v ≠ .selecting)
    (hdue : (s.workers v).due = []) : (s'.workers v).due = [] := by
  cases h with
  | publish hw | sweep hw | insert hw | giveUp hw => simp [Pc.due, Job.due]
  | publishInTxn hw => exact hdue
  | select hw => exact absurd hw hselecting
  | push hw =>
      rw [hw] at hdue
      simpa [Pc.due] using hdue
  | @mark job hw =>
      rw [hw] at hdue
      have hjob : job.due = [] := hdue
      rw [State.put_workers_self, due_succeeded, hjob, List.tail_nil]
  | record hw | failRecord hw =>
      rw [hw] at hdue
      exact absurd hdue (List.cons_ne_nil _ _)
  | @failJob job hw =>
      rw [State.put_workers_self, due_failed]
      rcases hw with hw | hw
      · rwa [hw] at hdue
      · rwa [hw] at hdue

/-- A step by another worker than the sweeper. -/
theorem Move.publishes (h : Move config s v action s') (hsweep : action ≠ .sweep)
    (hv : s.workers v ≠ .selecting ∧ (s.workers v).due = []) :
    s'.workers v ≠ .selecting ∧ (s'.workers v).due = [] := by
  obtain ⟨hselecting, hdue⟩ := hv
  refine ⟨?_, h.due_nil hselecting hdue⟩
  cases h with
  | sweep hw => exact absurd rfl hsweep
  | publishInTxn hw => exact hselecting
  | select hw => exact absurd hw hselecting
  | mark hw => simp [succeeded_ne_selecting]
  | record hw | failRecord hw => simp [sweepNext_ne_selecting]
  | failJob hw => simp [failed_ne_selecting]
  | _ => simp

/-- Only the update after a failed attempt writes a retry count. -/
theorem Move.keeps_count (h : Move config s v action s') {row : Row} (hrow : row ∈ s.rows)
    (hv : ∀ retry_count rest, s.workers v = .recording row.msg_id retry_count rest →
      action ≠ .update) :
    ∃ row' ∈ s'.rows, row'.msg_id = row.msg_id ∧ row'.retry_count = row.retry_count := by
  cases h with
  | publishInTxn | insert => exact ⟨row, List.mem_append_left _ hrow, rfl, rfl⟩
  | mark =>
      refine ⟨_, mem_updateRow.2 ⟨row, hrow, rfl⟩, ?_⟩
      split_ifs
      · exact ⟨rfl, rfl⟩
      · exact ⟨rfl, rfl⟩
  | @record msg_id retry_count rest hw =>
      refine ⟨_, mem_updateRow.2 ⟨row, hrow, rfl⟩, ?_⟩
      have hne : row.msg_id ≠ msg_id := by
        rintro rfl
        exact hv _ _ hw rfl
      rw [if_neg hne]
      exact ⟨rfl, rfl⟩
  | _ => exact ⟨row, hrow, rfl, rfl⟩

theorem Move.keeps_age (h : Move config s v action s') {row : Row} (hrow : row ∈ s.rows) :
    ∃ row' ∈ s'.rows, row'.msg_id = row.msg_id ∧ row'.created_at = row.created_at := by
  cases h with
  | publishInTxn | insert => exact ⟨row, List.mem_append_left _ hrow, rfl, rfl⟩
  | mark | record =>
      refine ⟨_, mem_updateRow.2 ⟨row, hrow, rfl⟩, ?_⟩
      split_ifs
      · exact ⟨rfl, rfl⟩
      · exact ⟨rfl, rfl⟩
  | _ => exact ⟨row, hrow, rfl, rfl⟩

/-- The rows that a sweep reads. -/
theorem mem_selected {order : List Row} (horder : Ordered config s.rows order) {row : Row}
    (hrow : row ∈ order.take 100) : row ∈ s.rows ∧ Eligible config row := by
  have hmem := horder.1.subset (List.mem_of_mem_take hrow)
  simpa using hmem

theorem nodup_selected {order : List Row} (horder : Ordered config s.rows order)
    (hs : (s.rows.map Row.msg_id).Nodup) : ((order.take 100).map Row.msg_id).Nodup := by
  have hfilter := hs.sublist ((s.rows.filter_sublist (p := fun row => Eligible config row)).map _)
  have horder' := (horder.1.map Row.msg_id).nodup_iff.2 hfilter
  exact horder'.sublist ((List.take_sublist 100 order).map _)

/-- The sweeper goes on with the rows it has, and leaves a row whose failure it has recorded, or
selects new ones. -/
theorem Move.due (h : Move config s w action s')
    (hdistinct : ((s.workers w).due.map Prod.fst).Nodup) :
    ((s'.workers w).due <:+ (s.workers w).due ∧ ∀ msg_id retry_count rest,
      s.workers w = .recording msg_id retry_count rest → action = .update →
        msg_id ∉ (s'.workers w).due.map Prod.fst) ∨
    ∃ order, Ordered config s.rows order ∧ s'.rows = s.rows ∧
      (s'.workers w).due = (order.take 100).map (fun row => (row.msg_id, row.retry_count)) := by
  cases h with
  | publish | sweep | giveUp => exact .inl ⟨by simp [Pc.due], nofun⟩
  | publishInTxn hw => exact .inl ⟨List.suffix_rfl, nofun⟩
  | insert hw => exact .inl ⟨by simp [Pc.due, Job.due], nofun⟩
  | @select order hw horder =>
      refine .inr ⟨order, horder, rfl, ?_⟩
      rw [State.put_workers_self, due_sweepNext, List.map_map]
      rfl
  | push hw => exact .inl ⟨by rw [State.put_workers_self, hw]; exact List.suffix_rfl, nofun⟩
  | @mark job hw =>
      refine .inl ⟨?_, fun msg_id retry_count rest hw' => absurd (hw.symm.trans hw') nofun⟩
      rw [State.put_workers_self, due_succeeded, hw]
      exact List.tail_suffix _
  | @record msg_id retry_count rest hw =>
      rw [hw] at hdistinct
      rw [State.put_workers_self, due_sweepNext, hw]
      refine .inl ⟨List.suffix_cons _ _, fun msg_id' retry_count' rest' hw' _ => ?_⟩
      obtain ⟨rfl, -, -⟩ := Pc.recording.inj hw'
      exact (List.nodup_cons.1 hdistinct).1
  | @failJob job hw =>
      refine .inl ⟨?_, nofun⟩
      rw [State.put_workers_self, due_failed]
      rcases hw with hw | hw
      · rw [hw]
        exact List.suffix_rfl
      · rw [hw]
        exact List.suffix_rfl
  | failRecord hw =>
      refine .inl ⟨?_, nofun⟩
      rw [State.put_workers_self, due_sweepNext, hw]
      exact List.suffix_cons _ _

namespace SoleSweeper

theorem initial (config : Config) (w : WorkerId) :
    SoleSweeper config w (system config).init where
  others _ _ := ⟨nofun, rfl⟩
  distinct := List.nodup_nil
  current _ _ h := absurd h List.not_mem_nil

/-- A step of another worker. -/
theorem other (h : SoleSweeper config w s) (hmove : Move config s v action s') (hv : v ≠ w)
    (hsweep : action ≠ .sweep) : SoleSweeper config w s' where
  others u hu := by
    by_cases huv : u = v
    · subst huv
      exact hmove.publishes hsweep (h.others u hu)
    · rw [hmove.other huv]
      exact h.others u hu
  distinct := by
    rw [hmove.other hv.symm]
    exact h.distinct
  current msg_id retry_count hmem := by
    rw [hmove.other hv.symm] at hmem
    obtain ⟨hlt, row, hrow, rfl, rfl⟩ := h.current msg_id retry_count hmem
    refine ⟨hlt, hmove.keeps_count hrow (fun count rest hpc => ?_)⟩
    have hdue := (h.others v hv).2
    rw [hpc] at hdue
    cases hdue

/-- A step of the sweeper. -/
theorem self (h : SoleSweeper config w s) (hmove : Move config s w action s')
    (hs : (s.rows.map Row.msg_id).Nodup) : SoleSweeper config w s' := by
  have hothers (v : WorkerId) (hv : v ≠ w) :
      s'.workers v ≠ .selecting ∧ (s'.workers v).due = [] := by
    rw [hmove.other hv]
    exact h.others v hv
  rcases hmove.due h.distinct with ⟨hsuffix, hrecorded⟩ | ⟨order, horder, hrows, hdue⟩
  · refine ⟨hothers, h.distinct.sublist (hsuffix.sublist.map _), ?_⟩
    intro msg_id retry_count hmem
    obtain ⟨hlt, row, hrow, rfl, rfl⟩ := h.current msg_id retry_count (hsuffix.subset hmem)
    refine ⟨hlt, hmove.keeps_count hrow (fun count rest hpc haction => ?_)⟩
    exact hrecorded _ _ _ hpc haction (List.mem_map_of_mem hmem)
  · refine ⟨hothers, ?_, ?_⟩
    · rw [hdue, List.map_map]
      exact nodup_selected horder hs
    · intro msg_id retry_count hmem
      rw [hdue] at hmem
      obtain ⟨row, hrow, heq⟩ := List.mem_map.1 hmem
      obtain ⟨rfl, rfl⟩ := Prod.mk.inj heq
      obtain ⟨hmem', heligible⟩ := mem_selected horder hrow
      rw [hrows]
      exact ⟨heligible.2, row, hmem', rfl, rfl⟩

theorem next (h : SoleSweeper config w s) (hmove : Move config s v action s')
    (hs : (s.rows.map Row.msg_id).Nodup) (hsweep : SweptBy w ⟨v, action⟩) :
    SoleSweeper config w s' := by
  by_cases hv : v = w
  · subst hv
    exact h.self hmove hs
  · exact h.other hmove hv (fun haction => hv (hsweep haction))

end SoleSweeper
end Sweeper

end Rszero.Outbox
