import Rszero.TransitionSystem
import Mathlib.Algebra.Group.Int.Defs
import Mathlib.Algebra.Group.Nat.Defs
import Mathlib.Data.Int.Notation
import Mathlib.Data.Nat.Notation
import Mathlib.Logic.Function.Basic
import Mathlib.Order.Basic
import Mathlib.Data.List.Perm.Basic

/-!
# The outbox table and its workers

A step of a worker is one SQL statement or one push to the queue, and each of them may fail with no
effect. A worker publishes a message or sweeps the table; a transaction with
`publish_reliable_in_txn` shows its row when it commits. A sweeper works through the rows of its
`SELECT` and keeps the retry counts it read there.
-/

namespace Rszero.Outbox

structure Uuid where
  text : String
  length_text : text.length = 36

inductive MessageStatus
  | pending
  | published
  | failed
  deriving DecidableEq

structure Row where
  msg_id : String
  topic : String
  payload : String
  status : MessageStatus
  retry_count : ℤ
  created_at : ℕ
  deriving DecidableEq

structure Message where
  topic : String
  payload : String
  headers : List (String × String)
  id : String
  deriving DecidableEq

/-- `encode` is the JSON encoding of a payload. -/
structure Config where
  max_retries : UInt32
  encode : String → String

def Message.new (config : Config) (topic payload : String) (uuid : Uuid) : Message :=
  ⟨topic, config.encode payload, [], uuid.text⟩

def asI32 (n : ℤ) : ℤ := if n % 2 ^ 32 < 2 ^ 31 then n % 2 ^ 32 else n % 2 ^ 32 - 2 ^ 32

def newMsgId (uuid : Uuid) : String := "rszero:msg:" ++ uuid.text

def pendingRow (uuid : Uuid) (topic payload : String) (created_at : ℕ) : Row :=
  ⟨newMsgId uuid, topic, payload, .pending, 0, created_at⟩

/-- `msg_id` is unique in the table. -/
def insertRow (rows : List Row) (row : Row) : Option (List Row) :=
  if row.msg_id ∈ rows.map Row.msg_id then none else some (rows ++ [row])

/-- The condition of the `SELECT` of a sweep. -/
def Eligible (config : Config) (row : Row) : Prop :=
  (row.status = .pending ∨ row.status = .failed) ∧ row.retry_count < config.max_retries.toNat

instance (config : Config) (row : Row) : Decidable (Eligible config row) :=
  inferInstanceAs (Decidable (_ ∧ _))

/-- The rows that meet the condition, oldest first; rows of one age may come in any order. -/
def Ordered (config : Config) (rows order : List Row) : Prop :=
  order.Perm (rows.filter (fun row => Eligible config row)) ∧
    order.Pairwise (fun row row' => row.created_at ≤ row'.created_at)

instance (config : Config) (rows order : List Row) : Decidable (Ordered config rows order) :=
  inferInstanceAs (Decidable (_ ∧ _))

def updateRow (rows : List Row) (msg_id : String) (f : Row → Row) : List Row :=
  rows.map (fun row => if row.msg_id = msg_id then f row else row)

def markPublished (row : Row) : Row := { row with status := .published }

/-- The update after a failed attempt, with the retry count that the sweep read. -/
def recordFailure (config : Config) (retry_count : ℤ) (row : Row) : Row :=
  let new_retry := asI32 (retry_count + 1)
  { row with
    retry_count := new_retry
    status := if new_retry ≥ asI32 config.max_retries.toNat then .failed else .pending }

/-- The columns of a row that a sweep reads. -/
structure Swept where
  msg_id : String
  topic : String
  payload : String
  retry_count : ℤ

def Row.swept (row : Row) : Swept := ⟨row.msg_id, row.topic, row.payload, row.retry_count⟩

/-- The caller of `try_publish`; a sweeper has the rest of its rows to do. -/
inductive Caller
  | publisher
  | sweeper (retry_count : ℤ) (rest : List Swept)

structure Job where
  msg_id : String
  topic : String
  payload : String
  caller : Caller

/-- The point a worker has reached, named after the statement or the push it does next. -/
inductive Pc
  | idle
  | inserting (uuid : Uuid) (topic payload : String)
  | selecting
  | pushing (job : Job)
  | marking (job : Job)
  | recording (msg_id : String) (retry_count : ℤ) (rest : List Swept)

def sweepNext : List Swept → Pc
  | [] => .idle
  | row :: rest => .pushing ⟨row.msg_id, row.topic, row.payload, .sweeper row.retry_count rest⟩

/-- `try_publish` returns `Ok`. -/
def Job.succeeded (job : Job) : Pc :=
  match job.caller with
  | .publisher => .idle
  | .sweeper _ rest => sweepNext rest

/-- `try_publish` returns an error. -/
def Job.failed (job : Job) : Pc :=
  match job.caller with
  | .publisher => .idle
  | .sweeper retry_count rest => .recording job.msg_id retry_count rest

abbrev WorkerId := ℕ

structure State where
  rows : List Row
  queue : List Message
  workers : WorkerId → Pc

inductive Action
  | publish (uuid : Uuid) (topic payload : String)
  | publishInTxn (uuid : Uuid) (topic payload : String) (created_at : ℕ)
  | sweep
  | insert (created_at : ℕ)
  | select (order : List Row)
  | push (uuid : Uuid)
  | update
  | fail

structure Label where
  worker : WorkerId
  action : Action

namespace State

def put (s : State) (w : WorkerId) (pc : Pc) : State :=
  { s with workers := Function.update s.workers w pc }

def withRows (s : State) (rows : List Row) : State := { s with rows := rows }

def deliver (s : State) (message : Message) : State :=
  { s with queue := s.queue ++ [message] }

@[simp] theorem put_rows (s : State) (w : WorkerId) (pc : Pc) : (s.put w pc).rows = s.rows := rfl

@[simp] theorem put_queue (s : State) (w : WorkerId) (pc : Pc) : (s.put w pc).queue = s.queue := rfl

@[simp] theorem put_workers_self (s : State) (w : WorkerId) (pc : Pc) :
    (s.put w pc).workers w = pc := Function.update_self ..

@[simp] theorem put_workers_of_ne (s : State) {w v : WorkerId} (pc : Pc) (h : v ≠ w) :
    (s.put w pc).workers v = s.workers v := Function.update_of_ne h ..

@[simp] theorem withRows_rows (s : State) (rows : List Row) : (s.withRows rows).rows = rows := rfl

@[simp] theorem withRows_queue (s : State) (rows : List Row) :
    (s.withRows rows).queue = s.queue := rfl

@[simp] theorem withRows_workers (s : State) (rows : List Row) :
    (s.withRows rows).workers = s.workers := rfl

@[simp] theorem deliver_rows (s : State) (message : Message) :
    (s.deliver message).rows = s.rows := rfl

@[simp] theorem deliver_queue (s : State) (message : Message) :
    (s.deliver message).queue = s.queue ++ [message] := rfl

@[simp] theorem deliver_workers (s : State) (message : Message) :
    (s.deliver message).workers = s.workers := rfl

def next (config : Config) (s : State) (a : Label) : Option State :=
  match s.workers a.worker, a.action with
  | .idle, .publish uuid topic payload => some (s.put a.worker (.inserting uuid topic payload))
  | .idle, .publishInTxn uuid topic payload created_at =>
      (insertRow s.rows (pendingRow uuid topic payload created_at)).map s.withRows
  | .idle, .sweep => some (s.put a.worker .selecting)
  | .inserting uuid topic payload, .insert created_at =>
      (insertRow s.rows (pendingRow uuid topic payload created_at)).map (fun rows =>
        (s.withRows rows).put a.worker (.pushing ⟨newMsgId uuid, topic, payload, .publisher⟩))
  | .selecting, .select order =>
      if Ordered config s.rows order then
        some (s.put a.worker (sweepNext ((order.take 100).map Row.swept)))
      else none
  | .pushing job, .push uuid =>
      some ((s.deliver (.new config job.topic job.payload uuid)).put a.worker (.marking job))
  | .marking job, .update =>
      some ((s.withRows (updateRow s.rows job.msg_id markPublished)).put a.worker job.succeeded)
  | .recording msg_id retry_count rest, .update =>
      some ((s.withRows (updateRow s.rows msg_id (recordFailure config retry_count))).put a.worker
        (sweepNext rest))
  | .inserting _ _ _, .fail | .selecting, .fail => some (s.put a.worker .idle)
  | .pushing job, .fail | .marking job, .fail => some (s.put a.worker job.failed)
  | .recording _ _ rest, .fail => some (s.put a.worker (sweepNext rest))
  | _, _ => none

end State

def system (config : Config) : TransitionSystem State Label where
  init := ⟨[], [], fun _ => .idle⟩
  step := State.next config

inductive Move (config : Config) (s : State) (w : WorkerId) : Action → State → Prop
  | publish {uuid : Uuid} {topic payload : String} (hw : s.workers w = .idle) :
      Move config s w (.publish uuid topic payload) (s.put w (.inserting uuid topic payload))
  | publishInTxn {uuid : Uuid} {topic payload : String} {created_at : ℕ}
      (hw : s.workers w = .idle) (hnew : newMsgId uuid ∉ s.rows.map Row.msg_id) :
      Move config s w (.publishInTxn uuid topic payload created_at)
        (s.withRows (s.rows ++ [pendingRow uuid topic payload created_at]))
  | sweep (hw : s.workers w = .idle) : Move config s w .sweep (s.put w .selecting)
  | insert {uuid : Uuid} {topic payload : String} {created_at : ℕ}
      (hw : s.workers w = .inserting uuid topic payload)
      (hnew : newMsgId uuid ∉ s.rows.map Row.msg_id) :
      Move config s w (.insert created_at)
        ((s.withRows (s.rows ++ [pendingRow uuid topic payload created_at])).put w
          (.pushing ⟨newMsgId uuid, topic, payload, .publisher⟩))
  | select {order : List Row} (hw : s.workers w = .selecting)
      (horder : Ordered config s.rows order) :
      Move config s w (.select order) (s.put w (sweepNext ((order.take 100).map Row.swept)))
  | push {job : Job} {uuid : Uuid} (hw : s.workers w = .pushing job) :
      Move config s w (.push uuid)
        ((s.deliver (.new config job.topic job.payload uuid)).put w (.marking job))
  | mark {job : Job} (hw : s.workers w = .marking job) :
      Move config s w .update
        ((s.withRows (updateRow s.rows job.msg_id markPublished)).put w job.succeeded)
  | record {msg_id : String} {retry_count : ℤ} {rest : List Swept}
      (hw : s.workers w = .recording msg_id retry_count rest) :
      Move config s w .update
        ((s.withRows (updateRow s.rows msg_id (recordFailure config retry_count))).put w
          (sweepNext rest))
  | giveUp (hw : s.workers w = .selecting ∨ ∃ uuid topic payload,
      s.workers w = .inserting uuid topic payload) : Move config s w .fail (s.put w .idle)
  | failJob {job : Job} (hw : s.workers w = .pushing job ∨ s.workers w = .marking job) :
      Move config s w .fail (s.put w job.failed)
  | failRecord {msg_id : String} {retry_count : ℤ} {rest : List Swept}
      (hw : s.workers w = .recording msg_id retry_count rest) :
      Move config s w .fail (s.put w (sweepNext rest))

theorem mem_updateRow {rows : List Row} {msg_id : String} {f : Row → Row} {row' : Row} :
    row' ∈ updateRow rows msg_id f ↔
      ∃ row ∈ rows, (if row.msg_id = msg_id then f row else row) = row' := List.mem_map

theorem insertRow_eq_some {rows rows' : List Row} {row : Row}
    (h : insertRow rows row = some rows') :
    row.msg_id ∉ rows.map Row.msg_id ∧ rows' = rows ++ [row] := by
  unfold insertRow at h
  split_ifs at h with hmem
  exact ⟨hmem, (Option.some.inj h).symm⟩

theorem next_move {config : Config} {s s' : State} {a : Label} (h : s.next config a = some s') :
    Move config s a.worker a.action s' := by
  obtain ⟨w, action⟩ := a
  unfold State.next at h
  split at h
  case h_14 => cases h
  all_goals
    rename_i hw ha
    obtain rfl : action = _ := ha
  · cases h
    exact .publish hw
  · obtain ⟨rows, hrows, rfl⟩ := Option.map_eq_some_iff.1 h
    obtain ⟨hnew, rfl⟩ := insertRow_eq_some hrows
    exact .publishInTxn hw hnew
  · cases h
    exact .sweep hw
  · obtain ⟨rows, hrows, rfl⟩ := Option.map_eq_some_iff.1 h
    obtain ⟨hnew, rfl⟩ := insertRow_eq_some hrows
    exact .insert hw hnew
  · split_ifs at h with horder
    cases h
    exact .select hw horder
  · cases h
    exact .push hw
  · cases h
    exact .mark hw
  · cases h
    exact .record hw
  · cases h
    exact .giveUp (.inr ⟨_, _, _, hw⟩)
  · cases h
    exact .giveUp (.inl hw)
  · cases h
    exact .failJob (.inl hw)
  · cases h
    exact .failJob (.inr hw)
  · cases h
    exact .failRecord hw

/-- The other workers stay where they are. -/
theorem Move.other {config : Config} {s s' : State} {w v : WorkerId} {action : Action}
    (h : Move config s w action s') (hv : v ≠ w) : s'.workers v = s.workers v := by
  cases h
  case publishInTxn => rfl
  all_goals exact State.put_workers_of_ne _ _ hv

end Rszero.Outbox
