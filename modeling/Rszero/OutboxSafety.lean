import Rszero.Outbox
import Mathlib.Data.List.Nodup
import Mathlib.Data.List.Count

/-!
# What the rows of the outbox tell

Sweepers write the retry count that they read, plus one, whatever the row holds by then. The
invariant bounds every count by the failed attempts noted so far: the stored one, and each one that
a sweeper still keeps. A row becomes published only through a worker that pushed its message.
-/

namespace Rszero.Outbox

inductive Event
  | pushed (msg_id : String) (message : Message)
  | attemptFailed (msg_id : String)
  deriving DecidableEq

/-- Only the attempts of sweepers are counted. -/
def Job.noteFailed (job : Job) (log : List Event) : List Event :=
  match job.caller with
  | .publisher => log
  | .sweeper _ _ => .attemptFailed job.msg_id :: log

def noteEvent (config : Config) (log : List Event) (s : State) (a : Label) (_ : State) :
    List Event :=
  match s.workers a.worker, a.action with
  | .pushing job, .push uuid =>
      .pushed job.msg_id (.new config job.topic job.payload uuid) :: log
  | .pushing job, .fail | .marking job, .fail => job.noteFailed log
  | _, _ => log

def withLog (config : Config) : TransitionSystem (State × List Event) Label :=
  (system config).observe [] (noteEvent config)

def failedAttempts (log : List Event) (msg_id : String) : ℕ := log.count (.attemptFailed msg_id)

/-- The payload of the row was pushed to its topic. -/
def Delivered (config : Config) (queue : List Message) (log : List Event)
    (msg_id topic payload : String) : Prop :=
  ∃ message ∈ queue, .pushed msg_id message ∈ log ∧
    message.topic = topic ∧ message.payload = config.encode payload

def Known (rows : List Row) (msg_id topic payload : String) : Prop :=
  ∃ row ∈ rows, row.msg_id = msg_id ∧ row.topic = topic ∧ row.payload = payload

section Step

variable {config : Config} {s s' : State} {w : WorkerId} {action : Action} {log : List Event}

theorem noteFailed_suffix (job : Job) (log : List Event) : log <:+ job.noteFailed log := by
  unfold Job.noteFailed
  cases job.caller with
  | publisher => exact List.suffix_rfl
  | sweeper retry_count rest => exact List.suffix_cons ..

theorem noteEvent_suffix (config : Config) (log : List Event) (s : State) (a : Label)
    (s' : State) : log <:+ noteEvent config log s a s' := by
  unfold noteEvent
  split
  · exact List.suffix_cons ..
  · exact noteFailed_suffix ..
  · exact noteFailed_suffix ..
  · exact List.suffix_rfl

theorem Known.updateRow {rows : List Row} {msg_id topic payload id : String} {f : Row → Row}
    (hf : ∀ row, Known [f row] row.msg_id row.topic row.payload)
    (h : Known rows msg_id topic payload) : Known (updateRow rows id f) msg_id topic payload := by
  obtain ⟨row, hrow, rfl, rfl, rfl⟩ := h
  refine ⟨_, mem_updateRow.2 ⟨row, hrow, rfl⟩, ?_⟩
  split_ifs
  · simpa [Known] using hf row
  · exact ⟨rfl, rfl, rfl⟩

theorem known_markPublished (row : Row) :
    Known [markPublished row] row.msg_id row.topic row.payload :=
  ⟨_, List.mem_singleton_self _, rfl, rfl, rfl⟩

theorem known_recordFailure (config : Config) (retry_count : ℤ) (row : Row) :
    Known [recordFailure config retry_count row] row.msg_id row.topic row.payload :=
  ⟨_, List.mem_singleton_self _, rfl, rfl, rfl⟩

theorem Move.known (h : Move config s w action s') {msg_id topic payload : String}
    (hknown : Known s.rows msg_id topic payload) : Known s'.rows msg_id topic payload := by
  cases h with
  | publishInTxn | insert =>
      obtain ⟨row, hrow, hrow'⟩ := hknown
      exact ⟨row, List.mem_append_left _ hrow, hrow'⟩
  | mark => exact hknown.updateRow known_markPublished
  | record => exact hknown.updateRow (known_recordFailure config _)
  | _ => exact hknown

theorem Move.msg_ids (h : Move config s w action s') {msg_id : String}
    (hid : msg_id ∈ s.rows.map Row.msg_id) : msg_id ∈ s'.rows.map Row.msg_id := by
  obtain ⟨row, hrow, rfl⟩ := List.mem_map.1 hid
  obtain ⟨row', hrow', heq, -⟩ := h.known ⟨row, hrow, rfl, rfl, rfl⟩
  exact List.mem_map.2 ⟨row', hrow', heq⟩

theorem Move.queue_subset (h : Move config s w action s') : s.queue ⊆ s'.queue := by
  cases h with
  | push => exact List.subset_append_left ..
  | _ => exact List.Subset.refl _

theorem Move.delivered (h : Move config s w action s') {msg_id topic payload : String}
    (hdelivered : Delivered config s.queue log msg_id topic payload) :
    Delivered config s'.queue (noteEvent config log s ⟨w, action⟩ s') msg_id topic payload := by
  obtain ⟨message, hqueue, hlog, hmessage⟩ := hdelivered
  exact ⟨message, h.queue_subset hqueue, (noteEvent_suffix ..).subset hlog, hmessage⟩

theorem failedAttempts_mono {log' : List Event} (h : log <:+ log') (msg_id : String) :
    failedAttempts log msg_id ≤ failedAttempts log' msg_id := h.sublist.count_le _

theorem msg_ids_updateRow (rows : List Row) (msg_id : String) {f : Row → Row}
    (hf : ∀ row, (f row).msg_id = row.msg_id) :
    (updateRow rows msg_id f).map Row.msg_id = rows.map Row.msg_id := by
  unfold updateRow
  rw [List.map_map]
  refine List.map_congr_left (fun row _ => ?_)
  simp only [Function.comp_apply]
  split_ifs
  · exact hf row
  · rfl

theorem Move.unique (h : Move config s w action s') (hs : (s.rows.map Row.msg_id).Nodup) :
    (s'.rows.map Row.msg_id).Nodup := by
  cases h with
  | publishInTxn hw hnew | insert hw hnew =>
      simpa [List.nodup_append, pendingRow] using ⟨hs, by simpa using hnew⟩
  | mark | record =>
      rw [State.put_rows, State.withRows_rows, msg_ids_updateRow]
      · exact hs
      · exact fun row => rfl
  | _ => exact hs

theorem asI32_eq {n : ℤ} (hn : 0 ≤ n) (hlt : n < 2 ^ 31) : asI32 n = n := by
  unfold asI32
  split_ifs
  all_goals omega

end Step

section Invariant

variable {config : Config} {s s' : State} {w : WorkerId} {action : Action} {log log' : List Event}

structure ReadAt (config : Config) (log : List Event) (msg_id : String) (retry_count : ℤ) :
    Prop where
  nonneg : 0 ≤ retry_count
  attempted : retry_count ≤ failedAttempts log msg_id
  eligible : retry_count < config.max_retries.toNat

structure SweptFits (config : Config) (rows : List Row) (log : List Event) (row : Swept) :
    Prop where
  known : Known rows row.msg_id row.topic row.payload
  read : ReadAt config log row.msg_id row.retry_count

def CallerFits (config : Config) (rows : List Row) (log : List Event) (msg_id : String) :
    Caller → Prop
  | .publisher => True
  | .sweeper retry_count rest =>
      ReadAt config log msg_id retry_count ∧ ∀ row ∈ rest, SweptFits config rows log row

structure JobFits (config : Config) (rows : List Row) (log : List Event) (job : Job) : Prop where
  known : Known rows job.msg_id job.topic job.payload
  caller : CallerFits config rows log job.msg_id job.caller

def PcFits (config : Config) (s : State) (log : List Event) : Pc → Prop
  | .idle | .inserting _ _ _ | .selecting => True
  | .pushing job => JobFits config s.rows log job
  | .marking job => JobFits config s.rows log job ∧
      Delivered config s.queue log job.msg_id job.topic job.payload
  | .recording msg_id retry_count rest =>
      ReadAt config log msg_id retry_count ∧ retry_count < failedAttempts log msg_id ∧
        ∀ row ∈ rest, SweptFits config s.rows log row

structure RowFits (config : Config) (s : State) (log : List Event) (row : Row) : Prop where
  nonneg : 0 ≤ row.retry_count
  attempted : row.retry_count ≤ failedAttempts log row.msg_id
  delivered : row.status = .published →
    Delivered config s.queue log row.msg_id row.topic row.payload

structure Consistent (config : Config) (s : State) (log : List Event) : Prop where
  unique : (s.rows.map Row.msg_id).Nodup
  rows : ∀ row ∈ s.rows, RowFits config s log row
  workers : ∀ w, PcFits config s log (s.workers w)

theorem ReadAt.mono {msg_id : String} {retry_count : ℤ}
    (h : ReadAt config log msg_id retry_count) (hlog : log <:+ log') :
    ReadAt config log' msg_id retry_count where
  nonneg := h.nonneg
  attempted := by
    have hattempts := failedAttempts_mono hlog msg_id
    have hread := h.attempted
    omega
  eligible := h.eligible

theorem SweptFits.mono {rows rows' : List Row} {row : Swept} (h : SweptFits config rows log row)
    (hrows : ∀ {msg_id topic payload}, Known rows msg_id topic payload →
      Known rows' msg_id topic payload) (hlog : log <:+ log') :
    SweptFits config rows' log' row :=
  ⟨hrows h.known, h.read.mono hlog⟩

/-- The caller of a job that a sweep made. -/
theorem JobFits.sweeper {rows : List Row} {job : Job} {retry_count : ℤ} {rest : List Swept}
    (h : JobFits config rows log job) (hjob : job.caller = .sweeper retry_count rest) :
    ReadAt config log job.msg_id retry_count ∧ ∀ row ∈ rest, SweptFits config rows log row := by
  have hcaller := h.caller
  rwa [hjob] at hcaller

theorem JobFits.mono {rows rows' : List Row} {job : Job} (h : JobFits config rows log job)
    (hrows : ∀ {msg_id topic payload}, Known rows msg_id topic payload →
      Known rows' msg_id topic payload) (hlog : log <:+ log') : JobFits config rows' log' job := by
  refine ⟨hrows h.known, ?_⟩
  cases hjob : job.caller with
  | publisher => trivial
  | sweeper retry_count rest =>
      obtain ⟨hread, hrest⟩ := h.sweeper hjob
      exact ⟨hread.mono hlog, fun row hrow => (hrest row hrow).mono hrows hlog⟩

/-- The steps of other workers leave a worker in its place true. -/
theorem Move.pcFits (h : Move config s w action s') {pc : Pc} (hpc : PcFits config s log pc) :
    PcFits config s' (noteEvent config log s ⟨w, action⟩ s') pc := by
  have hlog := noteEvent_suffix config log s ⟨w, action⟩ s'
  cases pc with
  | idle | inserting | selecting => trivial
  | pushing job => exact JobFits.mono hpc h.known hlog
  | marking job => exact ⟨hpc.1.mono h.known hlog, h.delivered hpc.2⟩
  | recording msg_id retry_count rest =>
      obtain ⟨hread, hlt, hrest⟩ := hpc
      have hattempts := failedAttempts_mono hlog msg_id
      exact ⟨hread.mono hlog, by omega, fun row hrow => (hrest row hrow).mono h.known hlog⟩

theorem pcFits_sweepNext {rest : List Swept} (h : ∀ row ∈ rest, SweptFits config s.rows log row) :
    PcFits config s log (sweepNext rest) := by
  cases rest with
  | nil => trivial
  | cons row rest =>
      have hrow := h row List.mem_cons_self
      exact ⟨hrow.known, hrow.read, fun row' hrow' => h row' (List.mem_cons_of_mem _ hrow')⟩

theorem pcFits_succeeded {job : Job} (h : JobFits config s.rows log job) :
    PcFits config s log job.succeeded := by
  unfold Job.succeeded
  cases hjob : job.caller with
  | publisher => trivial
  | sweeper retry_count rest => exact pcFits_sweepNext (h.sweeper hjob).2

theorem pcFits_failed {job : Job} (h : JobFits config s.rows log job) :
    PcFits config s (job.noteFailed log) job.failed := by
  have hlog := noteFailed_suffix job log
  unfold Job.failed
  cases hjob : job.caller with
  | publisher => trivial
  | sweeper retry_count rest =>
      obtain ⟨hread, hrest⟩ := h.sweeper hjob
      have hattempts : failedAttempts (job.noteFailed log) job.msg_id =
          failedAttempts log job.msg_id + 1 := by
        simp [Job.noteFailed, hjob, failedAttempts]
      have hle := hread.attempted
      exact ⟨hread.mono hlog, by omega, fun row hrow => (hrest row hrow).mono id hlog⟩

namespace Consistent

theorem initial : Consistent config (system config).init [] where
  unique := List.nodup_nil
  rows _ hrow := absurd hrow List.not_mem_nil
  workers _ := trivial

theorem eq_of_msg_id (h : Consistent config s log) {row row' : Row} (hrow : row ∈ s.rows)
    (hrow' : row' ∈ s.rows) (hid : row.msg_id = row'.msg_id) : row = row' :=
  List.inj_on_of_nodup_map h.unique hrow hrow' hid

theorem selected (h : Consistent config s log) {order : List Row}
    (horder : Ordered config s.rows order) :
    ∀ row ∈ (order.take 100).map Row.swept, SweptFits config s.rows log row := by
  intro swept hswept
  obtain ⟨row, hrow, rfl⟩ := List.mem_map.1 hswept
  have hfilter := horder.1.subset (List.mem_of_mem_take hrow)
  obtain ⟨hmem, heligible⟩ := List.mem_filter.1 hfilter
  have hfits := h.rows row hmem
  have heligible' := (of_decide_eq_true heligible).2
  exact ⟨⟨row, hmem, rfl, rfl, rfl⟩, hfits.nonneg, hfits.attempted, heligible'⟩

/-- The worker that moves. -/
theorem self (h : Consistent config s log) (hmove : Move config s w action s') :
    PcFits config s' (noteEvent config log s ⟨w, action⟩ s') (s'.workers w) := by
  have hpc := h.workers w
  have hmono {pc : Pc} (hpc : PcFits config s log pc) := hmove.pcFits hpc
  cases hmove with
  | publish | sweep | giveUp => rw [State.put_workers_self]; trivial
  | publishInTxn => exact hmono hpc
  | insert hw hnew =>
      rw [State.put_workers_self]
      exact ⟨⟨_, List.mem_append_right _ List.mem_cons_self, rfl, rfl, rfl⟩, trivial⟩
  | select hw horder =>
      rw [State.put_workers_self]
      exact hmono (pcFits_sweepNext (h.selected horder))
  | @push job uuid hw =>
      have hjob := hmono hpc
      rw [hw] at hjob
      rw [State.put_workers_self]
      refine ⟨hjob, Message.new config job.topic job.payload uuid, by simp, ?_, rfl, rfl⟩
      simp [noteEvent, hw]
  | mark hw =>
      rw [hw] at hpc
      rw [State.put_workers_self]
      exact hmono (pcFits_succeeded hpc.1)
  | record hw =>
      rw [hw] at hpc
      rw [State.put_workers_self]
      exact hmono (pcFits_sweepNext hpc.2.2)
  | @failJob job hw =>
      rw [State.put_workers_self]
      rcases hw with hw | hw
      · rw [hw] at hpc
        simp only [noteEvent, hw]
        exact pcFits_failed (s := s.put w job.failed) hpc
      · rw [hw] at hpc
        simp only [noteEvent, hw]
        exact pcFits_failed (s := s.put w job.failed) hpc.1
  | failRecord hw =>
      rw [hw] at hpc
      rw [State.put_workers_self]
      exact hmono (pcFits_sweepNext hpc.2.2)

/-- A row that the step does not change. -/
theorem row (h : Consistent config s log) (hmove : Move config s w action s') {row : Row}
    (hrow : row ∈ s.rows) : RowFits config s' (noteEvent config log s ⟨w, action⟩ s') row := by
  have hfits := h.rows row hrow
  have hattempts :=
    failedAttempts_mono (noteEvent_suffix config log s ⟨w, action⟩ s') row.msg_id
  have hattempted := hfits.attempted
  exact ⟨hfits.nonneg, by omega, fun hstatus => hmove.delivered (hfits.delivered hstatus)⟩

theorem rowFits_pendingRow (uuid : Uuid) (topic payload : String) (created_at : ℕ) :
    RowFits config s log (pendingRow uuid topic payload created_at) :=
  ⟨Int.le_refl 0, Int.natCast_nonneg _, nofun⟩

theorem markPublished (h : Consistent config s log) (hmove : Move config s w action s')
    {job : Job} (hw : s.workers w = .marking job) {row : Row} (hrow : row ∈ s.rows)
    (hid : row.msg_id = job.msg_id) :
    RowFits config s' (noteEvent config log s ⟨w, action⟩ s') (markPublished row) := by
  have hfits := h.row hmove hrow
  have hpc := h.workers w
  rw [hw] at hpc
  obtain ⟨row', hrow', hid', htopic, hpayload⟩ := hpc.1.known
  obtain rfl : row = row' := h.eq_of_msg_id hrow hrow' (hid.trans hid'.symm)
  refine ⟨hfits.nonneg, hfits.attempted, fun _ => ?_⟩
  have hdelivered := hmove.delivered hpc.2
  rwa [← hid', ← htopic, ← hpayload] at hdelivered

theorem recordFailure (h : Consistent config s log) (hmax : config.max_retries.toNat < 2 ^ 31)
    (hmove : Move config s w action s') {msg_id : String} {retry_count : ℤ} {rest : List Swept}
    (hw : s.workers w = .recording msg_id retry_count rest) {row : Row}
    (hid : row.msg_id = msg_id) :
    RowFits config s' (noteEvent config log s ⟨w, action⟩ s')
      (recordFailure config retry_count row) := by
  have hpc := hmove.pcFits (h.workers w)
  rw [hw] at hpc
  obtain ⟨hread, hlt, -⟩ := hpc
  have hnonneg := hread.nonneg
  have hcount : asI32 (retry_count + 1) = retry_count + 1 :=
    asI32_eq (by omega) (by have := hread.eligible; omega)
  refine ⟨?_, ?_, ?_⟩
  · simp only [Outbox.recordFailure, hcount]
    omega
  · simp only [Outbox.recordFailure, hcount, hid]
    omega
  · intro hstatus
    simp only [Outbox.recordFailure] at hstatus
    split_ifs at hstatus

theorem next (h : Consistent config s log) (hmax : config.max_retries.toNat < 2 ^ 31)
    (hmove : Move config s w action s') :
    Consistent config s' (noteEvent config log s ⟨w, action⟩ s') where
  unique := hmove.unique h.unique
  rows row' hrow' := by
    have hrow {row : Row} (hmem : row ∈ s.rows) := h.row hmove hmem
    cases hmove with
    | publishInTxn | insert =>
        rcases List.mem_append.1 hrow' with hmem | hmem
        · exact hrow hmem
        · obtain rfl := List.mem_singleton.1 hmem
          exact rowFits_pendingRow ..
    | mark hw =>
        obtain ⟨row, hmem, rfl⟩ := mem_updateRow.1 hrow'
        split_ifs with hid
        · exact h.markPublished (.mark hw) hw hmem hid
        · exact hrow hmem
    | record hw =>
        obtain ⟨row, hmem, rfl⟩ := mem_updateRow.1 hrow'
        split_ifs with hid
        · exact h.recordFailure hmax (.record hw) hw hid
        · exact hrow hmem
    | _ => exact hrow hrow'
  workers v := by
    by_cases hv : v = w
    · rw [hv]
      exact h.self hmove
    · rw [hmove.other hv]
      exact hmove.pcFits (h.workers v)

end Consistent

theorem reachable_consistent (hmax : config.max_retries.toNat < 2 ^ 31) {x : State × List Event}
    (hx : (withLog config).Reachable (fun _ _ => True) x) : Consistent config x.1 x.2 := by
  refine hx.invariant (I := fun x => Consistent config x.1 x.2) .initial ?_
  intro y a z hy _ hstep
  obtain ⟨s', hnext, rfl⟩ := TransitionSystem.exists_of_observe_step hstep
  exact hy.next hmax (next_move hnext)

end Invariant

structure RowSafe (config : Config) (s : State) (log : List Event) (row : Row) : Prop where
  delivered : row.status = .published →
    Delivered config s.queue log row.msg_id row.topic row.payload
  counted : row.retry_count ≤ failedAttempts log row.msg_id
  exhausted : row.status ≠ .published → ¬ Eligible config row →
    config.max_retries.toNat ≤ failedAttempts log row.msg_id
  eligible : row.status ≠ .published → row.retry_count < config.max_retries.toNat →
    Eligible config row

theorem eligible_of_lt {config : Config} {row : Row} (hstatus : row.status ≠ .published)
    (hlt : row.retry_count < config.max_retries.toNat) : Eligible config row := by
  refine ⟨?_, hlt⟩
  cases h : row.status with
  | pending => exact .inl rfl
  | failed => exact .inr rfl
  | published => exact absurd h hstatus

/-- In every reachable state a published row was pushed, the retry count of a row is at most the
number of its failed attempts, and an unpublished row is left out of the sweeps only after
`max_retries` of them. -/
theorem outbox_safety (config : Config) (hmax : config.max_retries.toNat < 2 ^ 31)
    {x : State × List Event} (hx : (withLog config).Reachable (fun _ _ => True) x) :
    ∀ row ∈ x.1.rows, RowSafe config x.1 x.2 row := by
  intro row hrow
  have hfits := (reachable_consistent hmax hx).rows row hrow
  refine ⟨hfits.delivered, hfits.attempted, ?_, eligible_of_lt⟩
  intro hstatus hnot
  have hle : (config.max_retries.toNat : ℤ) ≤ row.retry_count := by
    by_contra hlt
    exact hnot (eligible_of_lt hstatus (by omega))
  have hattempted := hfits.attempted
  omega

def uuidA : Uuid := ⟨"00000000-0000-4000-8000-00000000000a", by decide⟩

def orderRow : Row := pendingRow uuidA "order.created" "42" 0

/-- Both the immediate push and the only sweep fail. -/
def exhaustedRun : List Label :=
  [⟨0, .publish uuidA "order.created" "42"⟩, ⟨0, .insert 0⟩, ⟨0, .fail⟩, ⟨1, .sweep⟩,
    ⟨1, .select [orderRow]⟩, ⟨1, .fail⟩, ⟨1, .update⟩]

theorem outbox_safety_exhausted :
    ∃ x, (withLog ⟨1, id⟩).Reachable (fun _ _ => True) x ∧
      x.1.rows = [{ orderRow with status := .failed, retry_count := 1 }] ∧
      ∀ row ∈ x.1.rows, RowSafe ⟨1, id⟩ x.1 x.2 row := by
  obtain ⟨x, he, hp⟩ := (withLog ⟨1, id⟩).exists_exec
    (s := (withLog ⟨1, id⟩).init) (r := exhaustedRun)
    (p := fun x => x.1.rows = [{ orderRow with status := .failed, retry_count := 1 }])
    (by decide +kernel)
  have hx := TransitionSystem.Reachable.exec _ .init (fun _ _ => trivial) he
  exact ⟨x, hx, of_decide_eq_true hp, outbox_safety ⟨1, id⟩ (by decide) hx⟩

end Rszero.Outbox
