import Mathlib.Data.List.Nodup
import Mathlib.Tactic.Common
import Rszero.CallProgram
import Rszero.TransitionSystem

/-!
# Tasks around a fair lock

A lock of readers and writers that serves its requests in their order, as `tokio::sync::RwLock` is
documented to, and tasks whose programs take guards of it. A request behind that of a writer waits,
even if it is one for reading; so a task that holds a guard and asks for a second one may wait for
a writer that waits for the first. `Disciplined` says how many guards a program has at a time. Tasks
of disciplined programs come to a halt in this way only.
-/

namespace Rszero

inductive Access
  | read
  | write
  deriving DecidableEq

/-- The guards that are out, one entry for each, and the requests in their order. -/
structure FairLock (T : Type*) where
  readers : List T
  writer : Option T
  waiting : List (T × Access)

namespace FairLock

variable {T : Type*}

def new : FairLock T := ⟨[], none, []⟩

def request (lock : FairLock T) (t : T) (a : Access) : FairLock T :=
  { lock with waiting := lock.waiting ++ [(t, a)] }

def grant (lock : FairLock T) : Option (FairLock T) :=
  match lock.waiting with
  | [] => none
  | (t, .read) :: rest =>
      if lock.writer = none then some ⟨t :: lock.readers, none, rest⟩ else none
  | (t, .write) :: rest =>
      if lock.writer = none ∧ lock.readers = [] then some ⟨[], some t, rest⟩ else none

theorem grant_eq_some {lock lock' : FairLock T} (h : lock.grant = some lock') :
    lock.writer = none ∧ ∃ t rest,
      lock.waiting = (t, .read) :: rest ∧ lock' = ⟨t :: lock.readers, none, rest⟩ ∨
        lock.waiting = (t, .write) :: rest ∧ lock.readers = [] ∧ lock' = ⟨[], some t, rest⟩ := by
  unfold grant at h
  split at h
  · cases h
  · rename_i t rest hwaiting
    split_ifs at h with hfree
    exact ⟨hfree, t, rest, .inl ⟨hwaiting, (Option.some.inj h).symm⟩⟩
  · rename_i t rest hwaiting
    split_ifs at h with hfree
    exact ⟨hfree.1, t, rest, .inr ⟨hwaiting, hfree.2, (Option.some.inj h).symm⟩⟩

variable [DecidableEq T]

def release (lock : FairLock T) (t : T) : Access → FairLock T
  | .read => { lock with readers := lock.readers.erase t }
  | .write => { lock with writer := none }

/-- A future that is dropped drops its guards and its request. -/
def leave (lock : FairLock T) (t : T) : FairLock T where
  readers := lock.readers.filter (· ≠ t)
  writer := if lock.writer = some t then none else lock.writer
  waiting := lock.waiting.filter (·.1 ≠ t)

/-- A reader waits behind a writer that waits for a guard of that reader. -/
def Deadlocked (lock : FairLock T) (reader writer : T) : Prop :=
  reader ∈ lock.readers ∧ [(writer, .write), (reader, .read)].Sublist lock.waiting

end FairLock

inductive LockOp (Q : Type)
  | acquire (a : Access)
  | release (a : Access)
  | other (q : Q)

variable {Q : Type} (Ans : Q → Type)

abbrev LockOp.Answer : LockOp Q → Type
  | .other q => Ans q
  | _ => Unit

abbrev GuardedProgram := CallProgram (LockOp.Answer Ans) Unit

variable {Ans}

namespace GuardedProgram

/-- With these guards out, the program goes on to hold at most `depth` guards for reading at a
time, or the one for writing if it `writes`, and ends without any. -/
def Disciplined (depth : ℕ) (writes : Bool) : GuardedProgram Ans → ℕ → Bool → Prop
  | .done _, reading, writing => reading = 0 ∧ writing = false
  | .panic, _, _ => False
  | .call (.acquire .read) next, reading, writing =>
      writing = false ∧ reading < depth ∧ Disciplined depth writes (next ()) (reading + 1) false
  | .call (.acquire .write) next, reading, writing =>
      writes = true ∧ writing = false ∧ reading = 0 ∧ Disciplined depth writes (next ()) 0 true
  | .call (.release .read) next, reading, writing =>
      0 < reading ∧ Disciplined depth writes (next ()) (reading - 1) writing
  | .call (.release .write) next, reading, writing =>
      writing = true ∧ Disciplined depth writes (next ()) reading false
  | .call (.other _) next, reading, writing =>
      ∀ ans, Disciplined depth writes (next ans) reading writing

end GuardedProgram

/-- The programs of the calls, and how many guards they have at a time. -/
structure GuardedCalls (Ans : Q → Type) (κ : Type) where
  body : κ → GuardedProgram Ans
  depth : κ → ℕ
  writes : κ → Bool
  disciplined : ∀ k, GuardedProgram.Disciplined (depth k) (writes k) (body k) 0 false

namespace GuardedCalls

variable {κ : Type}

structure Task (Ans : Q → Type) (κ : Type) where
  call : κ
  rest : GuardedProgram Ans

structure State (Ans : Q → Type) (κ : Type) where
  lock : FairLock ℕ
  tasks : List (Task Ans κ)

/-- A task asks for a guard, is granted it, drops one, or gets the answer to another call. The
future of a task may be dropped. -/
inductive Label (Ans : Q → Type) (κ : Type)
  | spawn (k : κ)
  | ask (i : ℕ)
  | grant (i : ℕ)
  | release (i : ℕ)
  | reply (i : ℕ) (e : Sigma Ans)
  | cancel (i : ℕ)

def Label.IsCancel : Label Ans κ → Prop
  | .cancel _ => True
  | _ => False

def Label.IsOwn : Label Ans κ → Prop
  | .spawn _ | .cancel _ => False
  | _ => True

namespace State

def move (s : State Ans κ) (i : ℕ) (lock : FairLock ℕ) (task : Task Ans κ)
    (rest : GuardedProgram Ans) : State Ans κ :=
  ⟨lock, s.tasks.set i { task with rest := rest }⟩

def next [DecidableEq Q] (calls : GuardedCalls Ans κ) (s : State Ans κ) :
    Label Ans κ → Option (State Ans κ)
  | .spawn k => some { s with tasks := s.tasks ++ [⟨k, calls.body k⟩] }
  | .ask i => (s.tasks[i]?).bind fun task =>
      match task.rest with
      | .call (.acquire a) _ =>
          if i ∈ s.lock.waiting.map Prod.fst then none
          else some { s with lock := s.lock.request i a }
      | _ => none
  | .grant i => (s.tasks[i]?).bind fun task =>
      match task.rest with
      | .call (.acquire _) next =>
          if s.lock.waiting.head?.map Prod.fst = some i then
            s.lock.grant.map fun lock => s.move i lock task (next ())
          else none
      | _ => none
  | .release i => (s.tasks[i]?).bind fun task =>
      match task.rest with
      | .call (.release a) next => some (s.move i (s.lock.release i a) task (next ()))
      | _ => none
  | .reply i e => (s.tasks[i]?).bind fun task =>
      match task.rest with
      | .call (.other q) next =>
          if h : e.1 = q then some (s.move i s.lock task (next (h ▸ e.2))) else none
      | _ => none
  | .cancel i => (s.tasks[i]?).map fun task => s.move i (s.lock.leave i) task (.done ())

end State

section Sound

variable {calls : GuardedCalls Ans κ} {s : State Ans κ}

/-- The guards that are out are those that the programs count, and a request is that of a task
which waits for it. -/
structure Sound (calls : GuardedCalls Ans κ) (s : State Ans κ) : Prop where
  disciplined : ∀ i task, s.tasks[i]? = some task →
    GuardedProgram.Disciplined (calls.depth task.call) (calls.writes task.call) task.rest
      (s.lock.readers.count i) (decide (s.lock.writer = some i))
  asked : ∀ i a, (i, a) ∈ s.lock.waiting →
    ∃ task next, s.tasks[i]? = some task ∧ task.rest = .call (.acquire a) next
  once : (s.lock.waiting.map Prod.fst).Nodup
  readers : ∀ i ∈ s.lock.readers, i < s.tasks.length
  writer : ∀ i, s.lock.writer = some i → i < s.tasks.length

structure Apart (i : ℕ) (lock lock' : FairLock ℕ) : Prop where
  readers : ∀ j ≠ i, lock'.readers.count j = lock.readers.count j
  writer : ∀ j ≠ i, lock'.writer = some j ↔ lock.writer = some j
  waiting : lock'.waiting.Sublist lock.waiting
  gone : i ∉ lock'.waiting.map Prod.fst

theorem Apart.refl {lock : FairLock ℕ} {i : ℕ} (h : i ∉ lock.waiting.map Prod.fst) :
    Apart i lock lock := ⟨fun _ _ => rfl, fun _ _ => Iff.rfl, .refl _, h⟩

theorem Sound.move (h : Sound calls s) {i : ℕ} {task : Task Ans κ} (ht : s.tasks[i]? = some task)
    {lock : FairLock ℕ} (hlock : Apart i s.lock lock) {rest : GuardedProgram Ans}
    (hrest : GuardedProgram.Disciplined (calls.depth task.call) (calls.writes task.call) rest
      (lock.readers.count i) (decide (lock.writer = some i))) :
    Sound calls (s.move i lock task rest) := by
  obtain ⟨hi, -⟩ := List.getElem?_eq_some_iff.1 ht
  have hother {j : ℕ} (hj : j ≠ i) :
      (s.move i lock task rest).tasks[j]? = s.tasks[j]? := List.getElem?_set_ne hj.symm
  have hlength : (s.move i lock task rest).tasks.length = s.tasks.length := List.length_set
  constructor
  · intro j task' hj
    by_cases hij : j = i
    · subst hij
      have hself : (s.move j lock task rest).tasks[j]? = some { task with rest := rest } :=
        List.getElem?_set_self hi
      obtain rfl := Option.some.inj (hself.symm.trans hj)
      exact hrest
    · have hwriter := propext (hlock.writer j hij)
      have hdisciplined := h.disciplined j task' (hother hij ▸ hj)
      rw [← hlock.readers j hij] at hdisciplined
      simp only [State.move, hwriter]
      exact hdisciplined
  · intro j a hj
    have hij : j ≠ i := by
      rintro rfl
      exact hlock.gone (List.mem_map_of_mem hj)
    rw [hother hij]
    exact h.asked j a (hlock.waiting.subset hj)
  · exact h.once.sublist (hlock.waiting.map Prod.fst)
  · intro j hj
    rw [hlength]
    by_cases hij : j = i
    · exact hij ▸ hi
    · exact h.readers j (List.count_pos_iff.1 (hlock.readers j hij ▸ List.count_pos_iff.2 hj))
  · intro j hj
    rw [hlength]
    by_cases hij : j = i
    · exact hij ▸ hi
    · exact h.writer j ((hlock.writer j hij).1 hj)

/-- A task that is not at an acquisition has not asked for one. -/
theorem Sound.not_waiting (h : Sound calls s) {i : ℕ} {task : Task Ans κ}
    (ht : s.tasks[i]? = some task) (hrest : ∀ a next, task.rest ≠ .call (.acquire a) next) :
    i ∉ s.lock.waiting.map Prod.fst := by
  intro hmem
  obtain ⟨⟨_, a⟩, hwaiting, rfl⟩ := List.mem_map.1 hmem
  obtain ⟨task', next, ht', hrest'⟩ := h.asked _ a hwaiting
  obtain rfl := Option.some.inj (ht.symm.trans ht')
  exact hrest a next hrest'

theorem Sound.spawn (h : Sound calls s) (k : κ) :
    Sound calls { s with tasks := s.tasks ++ [⟨k, calls.body k⟩] } := by
  have hlength : (s.tasks ++ [Task.mk k (calls.body k)]).length = s.tasks.length + 1 :=
    List.length_append
  constructor
  · intro i task ht
    by_cases hi : i < s.tasks.length
    · rw [List.getElem?_append_left hi] at ht
      exact h.disciplined i task ht
    · obtain ⟨hlt, -⟩ := List.getElem?_eq_some_iff.1 ht
      rw [hlength] at hlt
      obtain rfl : i = s.tasks.length :=
        Nat.le_antisymm (Nat.le_of_lt_succ hlt) (Nat.le_of_not_lt hi)
      obtain rfl := Option.some.inj (List.getElem?_concat_length.symm.trans ht)
      have hcount : s.lock.readers.count s.tasks.length = 0 :=
        List.count_eq_zero.2 (fun hmem => hi (h.readers _ hmem))
      have hwriter : ¬ s.lock.writer = some s.tasks.length := fun hw => hi (h.writer _ hw)
      rw [hcount, decide_eq_false hwriter]
      exact calls.disciplined k
  · intro i a hi
    obtain ⟨task, next, ht, hrest⟩ := h.asked i a hi
    obtain ⟨hlt, -⟩ := List.getElem?_eq_some_iff.1 ht
    exact ⟨task, next, (List.getElem?_append_left hlt).trans ht, hrest⟩
  · exact h.once
  · exact fun i hi => hlength ▸ Nat.lt_succ_of_lt (h.readers i hi)
  · exact fun i hi => hlength ▸ Nat.lt_succ_of_lt (h.writer i hi)

theorem Sound.ask (h : Sound calls s) {i : ℕ} {task : Task Ans κ} {a : Access}
    {next : Unit → GuardedProgram Ans} (ht : s.tasks[i]? = some task)
    (hrest : task.rest = .call (.acquire a) next) (hnew : i ∉ s.lock.waiting.map Prod.fst) :
    Sound calls { s with lock := s.lock.request i a } where
  disciplined := h.disciplined
  asked := by
    intro j a' hj
    rcases List.mem_append.1 hj with hj | hj
    · exact h.asked j a' hj
    · obtain ⟨rfl, rfl⟩ := Prod.mk.inj (List.mem_singleton.1 hj)
      exact ⟨task, next, ht, hrest⟩
  once := by
    simp only [FairLock.request, List.map_append, List.map_cons, List.map_nil]
    exact List.Nodup.append h.once (List.nodup_singleton i) (List.disjoint_singleton.2 hnew)
  readers := h.readers
  writer := h.writer

theorem Sound.grant (h : Sound calls s) {i : ℕ} {task : Task Ans κ} {a : Access}
    {next : Unit → GuardedProgram Ans} {lock : FairLock ℕ} (ht : s.tasks[i]? = some task)
    (hrest : task.rest = .call (.acquire a) next)
    (hhead : s.lock.waiting.head?.map Prod.fst = some i) (hlock : s.lock.grant = some lock) :
    Sound calls (s.move i lock task (next ())) := by
  have hdisciplined := h.disciplined i task ht
  have honce := h.once
  obtain ⟨hfree, t, rest, hcases⟩ := FairLock.grant_eq_some hlock
  have hasked (a' : Access) (hwaiting : s.lock.waiting = (t, a') :: rest) : t = i ∧ a' = a := by
    rw [hwaiting] at hhead
    obtain rfl : t = i := Option.some.inj hhead
    obtain ⟨task', next', ht', hrest'⟩ := h.asked t a' (hwaiting ▸ List.mem_cons_self)
    obtain rfl := Option.some.inj (ht.symm.trans ht')
    have hcall := hrest.symm.trans hrest'
    cases hcall
    exact ⟨rfl, rfl⟩
  rw [hrest, hfree] at hdisciplined
  rcases hcases with ⟨hwaiting, rfl⟩ | ⟨hwaiting, hreaders, rfl⟩
  · obtain ⟨rfl, rfl⟩ := hasked _ hwaiting
    rw [hwaiting] at honce
    refine h.move ht ⟨?_, ?_, ?_, (List.nodup_cons.1 honce).1⟩ ?_
    · exact fun j hj => List.count_cons_of_ne hj.symm
    · exact fun j _ => by rw [hfree]
    · rw [hwaiting]
      exact List.sublist_cons_self ..
    · obtain ⟨-, -, hnext⟩ := hdisciplined
      simpa using hnext
  · obtain ⟨rfl, rfl⟩ := hasked _ hwaiting
    rw [hwaiting] at honce
    refine h.move ht ⟨?_, ?_, ?_, (List.nodup_cons.1 honce).1⟩ ?_
    · exact fun j _ => by rw [hreaders]
    · exact fun j hj => by simp [hfree, hj.symm]
    · rw [hwaiting]
      exact List.sublist_cons_self ..
    · obtain ⟨-, -, -, hnext⟩ := hdisciplined
      simpa using hnext

theorem Sound.release (h : Sound calls s) {i : ℕ} {task : Task Ans κ} {a : Access}
    {next : Unit → GuardedProgram Ans} (ht : s.tasks[i]? = some task)
    (hrest : task.rest = .call (.release a) next) :
    Sound calls (s.move i (s.lock.release i a) task (next ())) := by
  have hdisciplined := h.disciplined i task ht
  have hgone : i ∉ s.lock.waiting.map Prod.fst :=
    h.not_waiting ht (fun a' next' heq => by rw [hrest] at heq; cases heq)
  rw [hrest] at hdisciplined
  cases a with
  | read =>
      obtain ⟨-, hnext⟩ := hdisciplined
      have hapart : Apart i s.lock (s.lock.release i .read) :=
        ⟨fun j hj => List.count_erase_of_ne hj, fun _ _ => Iff.rfl, .refl _, hgone⟩
      have hcount : (s.lock.release i .read).readers.count i = s.lock.readers.count i - 1 :=
        List.count_erase_self
      refine h.move ht hapart ?_
      rw [hcount]
      exact hnext
  | write =>
      obtain ⟨hwriting, hnext⟩ := hdisciplined
      have hwriter := of_decide_eq_true hwriting
      have hapart : Apart i s.lock (s.lock.release i .write) :=
        ⟨fun _ _ => rfl, fun j hj => by simp [FairLock.release, hwriter, hj.symm], .refl _, hgone⟩
      refine h.move ht hapart ?_
      simpa [FairLock.release] using hnext

theorem Sound.cancel (h : Sound calls s) {i : ℕ} {task : Task Ans κ}
    (ht : s.tasks[i]? = some task) :
    Sound calls (s.move i (s.lock.leave i) task (.done ())) := by
  refine h.move ht ⟨?_, ?_, List.filter_sublist, ?_⟩ ⟨?_, ?_⟩
  · exact fun j hj => List.count_filter (by simpa using hj)
  · intro j hj
    unfold FairLock.leave
    dsimp only
    split_ifs with hwriter
    · simp [hwriter, hj.symm]
    · exact Iff.rfl
  · simp [FairLock.leave]
  · exact List.count_eq_zero.2 (by simp [FairLock.leave])
  · unfold FairLock.leave
    dsimp only
    split_ifs with hwriter <;> simp [hwriter]

/-- A task with a guard for reading that waits does so for another one. -/
theorem Sound.waits_read (h : Sound calls s) {i : ℕ} (hi : i ∈ s.lock.readers)
    {task : Task Ans κ} {a : Access} {next : Unit → GuardedProgram Ans}
    (ht : s.tasks[i]? = some task) (hrest : task.rest = .call (.acquire a) next) :
    a = .read ∧ 2 ≤ calls.depth task.call := by
  have hdisciplined := h.disciplined i task ht
  have hcount := List.count_pos_iff.2 hi
  rw [hrest] at hdisciplined
  cases a with
  | read =>
      obtain ⟨-, hdepth, -⟩ := hdisciplined
      exact ⟨rfl, by omega⟩
  | write =>
      obtain ⟨-, -, hnone, -⟩ := hdisciplined
      omega

end Sound

variable [DecidableEq Q] (calls : GuardedCalls Ans κ)

def system : TransitionSystem (State Ans κ) (Label Ans κ) := ⟨⟨.new, []⟩, State.next calls⟩

inductive Move (s : State Ans κ) : Label Ans κ → State Ans κ → Prop
  | spawn (k : κ) : Move s (.spawn k) { s with tasks := s.tasks ++ [⟨k, calls.body k⟩] }
  | ask {i : ℕ} {task : Task Ans κ} {a : Access} {next : Unit → GuardedProgram Ans}
      (ht : s.tasks[i]? = some task) (hrest : task.rest = .call (.acquire a) next)
      (hnew : i ∉ s.lock.waiting.map Prod.fst) :
      Move s (.ask i) { s with lock := s.lock.request i a }
  | grant {i : ℕ} {task : Task Ans κ} {a : Access} {next : Unit → GuardedProgram Ans}
      {lock : FairLock ℕ} (ht : s.tasks[i]? = some task)
      (hrest : task.rest = .call (.acquire a) next)
      (hhead : s.lock.waiting.head?.map Prod.fst = some i) (hlock : s.lock.grant = some lock) :
      Move s (.grant i) (s.move i lock task (next ()))
  | release {i : ℕ} {task : Task Ans κ} {a : Access} {next : Unit → GuardedProgram Ans}
      (ht : s.tasks[i]? = some task) (hrest : task.rest = .call (.release a) next) :
      Move s (.release i) (s.move i (s.lock.release i a) task (next ()))
  | reply {i : ℕ} {task : Task Ans κ} {q : Q} {next : Ans q → GuardedProgram Ans} (ans : Ans q)
      (ht : s.tasks[i]? = some task) (hrest : task.rest = .call (.other q) next) :
      Move s (.reply i ⟨q, ans⟩) (s.move i s.lock task (next ans))
  | cancel {i : ℕ} {task : Task Ans κ} (ht : s.tasks[i]? = some task) :
      Move s (.cancel i) (s.move i (s.lock.leave i) task (.done ()))

variable {calls} {s s' : State Ans κ} {a : Label Ans κ}

theorem next_move (h : calls.system.step s a = some s') : calls.Move s a s' := by
  cases a with
  | spawn k =>
      obtain rfl := Option.some.inj h
      exact .spawn k
  | ask i =>
      obtain ⟨task, ht, h⟩ := Option.bind_eq_some_iff.1 h
      split at h
      · rename_i hrest
        split_ifs at h with hnew
        obtain rfl := Option.some.inj h
        exact .ask ht hrest hnew
      · cases h
  | grant i =>
      obtain ⟨task, ht, h⟩ := Option.bind_eq_some_iff.1 h
      split at h
      · rename_i hrest
        split_ifs at h with hhead
        obtain ⟨lock, hlock, rfl⟩ := Option.map_eq_some_iff.1 h
        exact .grant ht hrest hhead hlock
      · cases h
  | release i =>
      obtain ⟨task, ht, h⟩ := Option.bind_eq_some_iff.1 h
      split at h
      · rename_i hrest
        obtain rfl := Option.some.inj h
        exact .release ht hrest
      · cases h
  | reply i e =>
      obtain ⟨q, ans⟩ := e
      obtain ⟨task, ht, h⟩ := Option.bind_eq_some_iff.1 h
      split at h
      · rename_i hrest
        split_ifs at h with hq
        obtain rfl := hq
        obtain rfl := Option.some.inj h
        exact .reply ans ht hrest
      · cases h
  | cancel i =>
      obtain ⟨task, ht, rfl⟩ := Option.map_eq_some_iff.1 h
      exact .cancel ht

theorem Sound.step (h : Sound calls s) (hstep : calls.system.step s a = some s') :
    Sound calls s' := by
  cases next_move hstep with
  | spawn k => exact h.spawn k
  | ask ht hrest hnew => exact h.ask ht hrest hnew
  | grant ht hrest hhead hlock => exact h.grant ht hrest hhead hlock
  | release ht hrest => exact h.release ht hrest
  | @reply i task q next ans ht hrest =>
      have hdisciplined := h.disciplined i task ht
      have hgone : i ∉ s.lock.waiting.map Prod.fst :=
        h.not_waiting ht (fun a' next' heq => by rw [hrest] at heq; cases heq)
      rw [hrest] at hdisciplined
      exact h.move ht (.refl hgone) (hdisciplined ans)
  | cancel ht => exact h.cancel ht

theorem sound_exec {as : List (Label Ans κ)}
    (he : calls.system.exec calls.system.init as = some s) : Sound calls s := by
  have hinit : Sound calls calls.system.init := by
    constructor
    · intro i task ht
      cases ht
    · intro i a hi
      cases hi
    · exact .nil
    · intro i hi
      cases hi
    · intro i hi
      cases hi
  exact calls.system.exec_invariant (fun _ _ _ h hstep => h.step hstep) hinit he

/-- Some task has not ended, and none can take a step. -/
def Stuck (calls : GuardedCalls Ans κ) (s : State Ans κ) : Prop :=
  (∃ task ∈ s.tasks, task.rest ≠ .done ()) ∧ ∀ a, Label.IsOwn a → calls.system.step s a = none

/-- In a state that cannot go on, every task that has not ended waits for a guard. -/
theorem Stuck.waits [∀ q, Nonempty (Ans q)] (hs : Stuck calls s) (h : Sound calls s) {i : ℕ}
    {task : Task Ans κ} (ht : s.tasks[i]? = some task) (hrest : task.rest ≠ .done ()) :
    ∃ a next, task.rest = .call (.acquire a) next ∧ (i, a) ∈ s.lock.waiting := by
  have hdisciplined := h.disciplined i task ht
  cases hcall : task.rest with
  | done => exact absurd hcall hrest
  | panic =>
      rw [hcall] at hdisciplined
      exact hdisciplined.elim
  | call op next =>
      cases op with
      | acquire a =>
          have hstep := hs.2 (.ask i) trivial
          have hwaiting : i ∈ s.lock.waiting.map Prod.fst := by
            by_contra hnew
            simp [system, State.next, ht, hcall, hnew] at hstep
          obtain ⟨⟨_, a'⟩, hmem, rfl⟩ := List.mem_map.1 hwaiting
          obtain ⟨task', next', ht', hrest'⟩ := h.asked _ a' hmem
          obtain rfl := Option.some.inj (ht.symm.trans ht')
          have hsame := hcall.symm.trans hrest'
          cases hsame
          exact ⟨a, next, rfl, hmem⟩
      | release a =>
          have hstep := hs.2 (.release i) trivial
          simp [system, State.next, ht, hcall] at hstep
      | other q =>
          obtain ⟨ans⟩ := (inferInstance : Nonempty (Ans q))
          have hstep := hs.2 (.reply i ⟨q, ans⟩) trivial
          simp [system, State.next, ht, hcall] at hstep

/-- The guard for writing is never what the tasks wait for. -/
theorem Stuck.writer_eq_none [∀ q, Nonempty (Ans q)] (hs : Stuck calls s) (h : Sound calls s) :
    s.lock.writer = none := by
  by_contra hwriter
  obtain ⟨i, hi⟩ := Option.ne_none_iff_exists'.1 hwriter
  obtain ⟨task, ht⟩ : ∃ task, s.tasks[i]? = some task :=
    ⟨_, List.getElem?_eq_getElem (h.writer i hi)⟩
  have hdisciplined := h.disciplined i task ht
  rw [decide_eq_true hi] at hdisciplined
  have hrest : task.rest ≠ .done () := by
    intro hdone
    rw [hdone] at hdisciplined
    cases hdisciplined.2
  obtain ⟨a, next, hcall, -⟩ := hs.waits h ht hrest
  rw [hcall] at hdisciplined
  cases a with
  | read => cases hdisciplined.1
  | write => cases hdisciplined.2.1

theorem exists_deadlocked [∀ q, Nonempty (Ans q)] (h : Sound calls s) (hs : Stuck calls s) :
    ∃ i j, s.lock.Deadlocked i j := by
  obtain ⟨task, hmem, hrest⟩ := hs.1
  obtain ⟨i, hi⟩ := List.mem_iff_getElem?.1 hmem
  obtain ⟨a, next, -, hwaiting⟩ := hs.waits h hi hrest
  have hwriter := hs.writer_eq_none h
  cases hqueue : s.lock.waiting with
  | nil =>
      rw [hqueue] at hwaiting
      cases hwaiting
  | cons first rest =>
      obtain ⟨j, a'⟩ := first
      have hfirst : (j, a') ∈ s.lock.waiting := hqueue ▸ List.mem_cons_self
      obtain ⟨task', next', ht', hcall⟩ := h.asked j a' hfirst
      have hgrant : s.lock.grant = none := by
        have hstep := hs.2 (.grant j) trivial
        simpa [system, State.next, ht', hcall, hqueue] using hstep
      unfold FairLock.grant at hgrant
      rw [hqueue] at hgrant
      cases a' with
      | read => simp [hwriter] at hgrant
      | write =>
          have hreaders : s.lock.readers ≠ [] := by
            intro hnone
            simp [hwriter, hnone] at hgrant
          obtain ⟨k, hk⟩ := List.exists_mem_of_ne_nil _ hreaders
          obtain ⟨holder, hholder⟩ : ∃ holder, s.tasks[k]? = some holder :=
            ⟨_, List.getElem?_eq_getElem (h.readers k hk)⟩
          have hgoes : holder.rest ≠ .done () := by
            intro hdone
            have hdisciplined := h.disciplined k holder hholder
            rw [hdone] at hdisciplined
            exact List.count_eq_zero.1 hdisciplined.1 hk
          obtain ⟨b, next'', hcall', hwaits⟩ := hs.waits h hholder hgoes
          obtain ⟨rfl, -⟩ := h.waits_read hk hholder hcall'
          rw [hqueue] at hwaits
          have hbehind : (k, Access.read) ∈ rest :=
            (List.mem_cons.1 hwaits).resolve_left (fun heq => by cases heq)
          refine ⟨k, j, hk, ?_⟩
          rw [hqueue]
          exact (List.singleton_sublist.2 hbehind).cons_cons _

theorem deadlocked_grant {lock lock' : FairLock ℕ} {i j : ℕ} (h : lock.Deadlocked i j)
    (hgrant : lock.grant = some lock') : lock'.Deadlocked i j := by
  obtain ⟨hreader, hsublist⟩ := h
  obtain ⟨-, t, rest, ⟨hwaiting, rfl⟩ | ⟨hwaiting, hreaders, rfl⟩⟩ :=
    FairLock.grant_eq_some hgrant
  · rw [hwaiting] at hsublist
    refine ⟨List.mem_cons_of_mem t hreader, ?_⟩
    rcases List.sublist_cons_iff.1 hsublist with hrest | ⟨_, heq, -⟩
    · exact hrest
    · cases heq
  · rw [hreaders] at hreader
    cases hreader

theorem deadlocked_step (hs : Sound calls s) {i j : ℕ} (h : s.lock.Deadlocked i j)
    (hi : a ≠ .cancel i) (hj : a ≠ .cancel j) (hstep : calls.system.step s a = some s') :
    s'.lock.Deadlocked i j := by
  obtain ⟨hreader, hsublist⟩ := h
  cases next_move hstep with
  | spawn k => exact ⟨hreader, hsublist⟩
  | ask ht hrest hnew => exact ⟨hreader, hsublist.trans (List.sublist_append_left ..)⟩
  | grant ht hrest hhead hlock => exact deadlocked_grant ⟨hreader, hsublist⟩ hlock
  | @release k task a next ht hrest =>
      have hwaits : i ∈ s.lock.waiting.map Prod.fst :=
        List.mem_map_of_mem (hsublist.subset (List.mem_cons_of_mem _ List.mem_cons_self))
      have hne : i ≠ k := by
        rintro rfl
        exact hs.not_waiting ht (fun a' next' heq => by rw [hrest] at heq; cases heq) hwaits
      cases a with
      | read => exact ⟨(List.mem_erase_of_ne hne).2 hreader, hsublist⟩
      | write => exact ⟨hreader, hsublist⟩
  | reply ans ht hrest => exact ⟨hreader, hsublist⟩
  | @cancel k task ht =>
      have hik : i ≠ k := fun heq => hi (heq ▸ rfl)
      have hjk : j ≠ k := fun heq => hj (heq ▸ rfl)
      have hfilter := hsublist.filter (fun e => decide (e.1 ≠ k))
      have hboth : [(j, Access.write), (i, Access.read)].filter (fun e => decide (e.1 ≠ k)) =
          [(j, .write), (i, .read)] := by simp [hik, hjk]
      rw [hboth] at hfilter
      exact ⟨List.mem_filter.2 ⟨hreader, decide_eq_true hik⟩, hfilter⟩

theorem deadlocked_exec {i j : ℕ} (hs : Sound calls s) (h : s.lock.Deadlocked i j)
    {as : List (Label Ans κ)} (hi : .cancel i ∉ as) (hj : .cancel j ∉ as)
    (he : calls.system.exec s as = some s') : s'.lock.Deadlocked i j := by
  induction as generalizing s with
  | nil => exact Option.some.inj he ▸ h
  | cons a as ih =>
      obtain ⟨t, ht, hr⟩ := calls.system.exec_cons_eq_some.1 he
      refine ih (hs.step ht) (deadlocked_step hs h ?_ ?_ ht) ?_ ?_ hr
      · exact fun heq => hi (heq ▸ List.mem_cons_self)
      · exact fun heq => hj (heq ▸ List.mem_cons_self)
      · exact fun hmem => hi (List.mem_cons_of_mem a hmem)
      · exact fun hmem => hj (List.mem_cons_of_mem a hmem)

/-- The tasks that have asked for reading before any has asked for writing. -/
def front (s : State Ans κ) : List ℕ :=
  (s.lock.waiting.takeWhile (fun e => e.2 = .read)).map Prod.fst

def Label.granted : Label Ans κ → Option ℕ
  | .grant i => some i
  | _ => none

theorem takeWhile_read_append {l l' : List (ℕ × Access)} {j : ℕ} (h : (j, .write) ∈ l) :
    (l ++ l').takeWhile (fun e => e.2 = .read) = l.takeWhile (fun e => e.2 = .read) := by
  induction l with
  | nil => cases h
  | cons e l ih =>
      obtain ⟨k, a⟩ := e
      cases a with
      | read =>
          have hrest : (j, Access.write) ∈ l :=
            (List.mem_cons.1 h).resolve_left (fun heq => by cases heq)
          simp [ih hrest]
      | write => simp

/-- A guard that is granted is that of the first of `front`, which a new request leaves alone. -/
theorem front_step {i j : ℕ} (h : s.lock.Deadlocked i j) (ha : ¬ a.IsCancel)
    (hstep : calls.system.step s a = some s') :
    front s = [a].filterMap Label.granted ++ front s' := by
  have hwaits : (j, .write) ∈ s.lock.waiting := h.2.subset List.mem_cons_self
  cases next_move hstep with
  | spawn k => rfl
  | ask ht hrest hnew =>
      unfold front FairLock.request
      exact (congrArg (List.map Prod.fst) (takeWhile_read_append hwaits)).symm
  | @grant k task a next lock ht hrest hhead hlock =>
      obtain ⟨-, t, rest, ⟨hwaiting, rfl⟩ | ⟨hwaiting, hreaders, rfl⟩⟩ :=
        FairLock.grant_eq_some hlock
      · rw [hwaiting] at hhead
        obtain rfl : t = k := Option.some.inj hhead
        simp [front, hwaiting, Label.granted, State.move]
      · have hreader := h.1
        rw [hreaders] at hreader
        cases hreader
  | @release k task a next ht hrest => cases a <;> rfl
  | reply ans ht hrest => rfl
  | cancel ht => exact absurd trivial ha

/-- The tasks of `front` are granted their guards in their order, and no other task is. -/
theorem front_exec {i j : ℕ} (hs : Sound calls s) (h : s.lock.Deadlocked i j)
    {as : List (Label Ans κ)} (ha : ∀ a ∈ as, ¬ a.IsCancel)
    (he : calls.system.exec s as = some s') :
    front s = as.filterMap Label.granted ++ front s' := by
  induction as generalizing s with
  | nil => rw [Option.some.inj he]; rfl
  | cons a as ih =>
      obtain ⟨t, ht, hr⟩ := calls.system.exec_cons_eq_some.1 he
      obtain ⟨hfirst, hrest⟩ := List.forall_mem_cons.1 ha
      have hdeadlocked : t.lock.Deadlocked i j :=
        deadlocked_step hs h (by rintro rfl; exact hfirst trivial)
          (by rintro rfl; exact hfirst trivial) ht
      calc front s = [a].filterMap Label.granted ++ front t := front_step h hfirst ht
        _ = [a].filterMap Label.granted ++ (as.filterMap Label.granted ++ front s') := by
            rw [ih (hs.step ht) hdeadlocked hrest hr]
        _ = (a :: as).filterMap Label.granted ++ front s' := by
            rw [← List.append_assoc, ← List.filterMap_append, List.singleton_append]

/-- A guard for writing is the only one that is out. -/
theorem exclusive_step (h : s.lock.writer = none ∨ s.lock.readers = [])
    (hstep : calls.system.step s a = some s') :
    s'.lock.writer = none ∨ s'.lock.readers = [] := by
  cases next_move hstep with
  | spawn k => exact h
  | ask ht hrest hnew => exact h
  | grant ht hrest hhead hlock =>
      obtain ⟨-, t, rest, ⟨-, rfl⟩ | ⟨-, -, rfl⟩⟩ := FairLock.grant_eq_some hlock
      · exact .inl rfl
      · exact .inr rfl
  | @release k task a next ht hrest =>
      cases a with
      | read =>
          refine h.imp id fun hreaders => ?_
          simp [State.move, FairLock.release, hreaders]
      | write => exact .inl rfl
  | reply ans ht hrest => exact h
  | @cancel k task ht =>
      refine h.imp (fun hwriter => ?_) (fun hreaders => ?_)
      · simp [State.move, FairLock.leave, hwriter]
      · simp [State.move, FairLock.leave, hreaders]

theorem exclusive_exec {as : List (Label Ans κ)}
    (he : calls.system.exec calls.system.init as = some s) :
    s.lock.writer = none ∨ s.lock.readers = [] :=
  calls.system.exec_invariant (fun _ _ _ h hstep => exclusive_step h hstep) (.inl rfl) he

theorem grant_of_front (hs : Sound calls s) (hfree : s.lock.writer = none) {k : ℕ}
    (hk : k ∈ (front s).head?) : (calls.system.step s (.grant k)).isSome := by
  unfold front at hk
  cases hwaiting : s.lock.waiting with
  | nil =>
      rw [hwaiting] at hk
      cases hk
  | cons e rest =>
      obtain ⟨t, a⟩ := e
      rw [hwaiting] at hk
      cases a with
      | read =>
          obtain rfl : t = k := by simpa using hk
          obtain ⟨task, next, ht, hrest⟩ := hs.asked t .read (hwaiting ▸ List.mem_cons_self)
          simp [system, State.next, ht, hrest, hwaiting, FairLock.grant, hfree]
      | write => simp at hk

/-- No task with a guard asks for another one behind a writer. -/
def Safe (s : State Ans κ) : Label Ans κ → Prop
  | .ask i => i ∈ s.lock.readers → ∀ j, (j, .write) ∉ s.lock.waiting
  | _ => True

/-- The step brings no deadlock about. -/
theorem deadlocked_of_step (hs : Sound calls s) (ha : ¬ a.IsCancel) (hsafe : Safe s a)
    (hstep : calls.system.step s a = some s') {i j : ℕ} (h : s'.lock.Deadlocked i j) :
    s.lock.Deadlocked i j := by
  obtain ⟨hreader, hsublist⟩ := h
  cases next_move hstep with
  | spawn k => exact ⟨hreader, hsublist⟩
  | @ask k task a next ht hrest hnew =>
      obtain ⟨init, last, hlist, hinit, hlast⟩ := List.sublist_append_iff.1 hsublist
      cases last with
      | nil =>
          rw [List.append_nil] at hlist
          exact ⟨hreader, hlist ▸ hinit⟩
      | cons e rest =>
          obtain ⟨rfl, rfl⟩ : e = (k, a) ∧ rest = [] :=
            List.cons.inj (hlast.eq_of_length_le (Nat.succ_le_succ (Nat.zero_le _)))
          have hsplit : [(j, Access.write)] ++ [(i, Access.read)] = init ++ [(k, a)] := hlist
          obtain ⟨rfl, hlast⟩ := List.append_inj' hsplit rfl
          obtain ⟨rfl, -⟩ := Prod.mk.inj (List.cons.inj hlast).1
          exact absurd (List.singleton_sublist.1 hinit) (hsafe hreader j)
  | @grant k task a next lock ht hrest hhead hlock =>
      have honce := hs.once
      obtain ⟨-, t, rest, ⟨hwaiting, rfl⟩ | ⟨hwaiting, hreaders, rfl⟩⟩ :=
        FairLock.grant_eq_some hlock
      · rw [hwaiting] at honce
        have hrest : (i, Access.read) ∈ rest :=
          hsublist.subset (List.mem_cons_of_mem _ List.mem_cons_self)
        have hne : i ≠ t := by
          rintro rfl
          exact (List.nodup_cons.1 honce).1 (List.mem_map_of_mem hrest)
        refine ⟨(List.mem_cons.1 hreader).resolve_left hne, ?_⟩
        rw [hwaiting]
        exact hsublist.cons _
      · cases hreader
  | @release k task a next ht hrest =>
      cases a with
      | read => exact ⟨List.mem_of_mem_erase hreader, hsublist⟩
      | write => exact ⟨hreader, hsublist⟩
  | reply ans ht hrest => exact ⟨hreader, hsublist⟩
  | cancel ht => exact absurd trivial ha

theorem deadlocked_of_not_safe (hs : Sound calls s) (hsafe : ¬ Safe s a)
    (hstep : calls.system.step s a = some s') : ∃ i j, s'.lock.Deadlocked i j := by
  cases next_move hstep with
  | @ask k task a next ht hrest hnew =>
      obtain ⟨hreader, hwriter⟩ := Classical.not_imp.1 hsafe
      obtain ⟨j, hj⟩ := not_forall_not.1 hwriter
      obtain ⟨rfl, -⟩ := hs.waits_read hreader ht hrest
      exact ⟨k, j, hreader, (List.singleton_sublist.2 hj).append (.refl [(k, Access.read)])⟩
  | _ => exact absurd trivial hsafe

theorem exists_deadlocked_iff {as : List (Label Ans κ)} (ha : ∀ a ∈ as, ¬ a.IsCancel)
    (he : calls.system.exec calls.system.init as = some s) :
    (∃ i j, s.lock.Deadlocked i j) ↔ ¬ calls.system.Along Safe calls.system.init as := by
  have hfree : ¬ ∃ i j, calls.system.init.lock.Deadlocked i j := by
    rintro ⟨i, j, hreader, -⟩
    cases hreader
  have hfinal := TransitionSystem.final_iff_along_within (S := calls.system)
    (A := fun _ a => ¬ Label.IsCancel a) (C := Safe) (I := Sound calls)
    (P := fun s => ¬ ∃ i j, s.lock.Deadlocked i j) (fun _ _ _ hs hstep => hs.step hstep) ?_
    (sound_exec (calls.system.exec_nil _)) he ((TransitionSystem.along_iff_forall_mem he).2 ha)
  · rw [← not_iff_not, not_not, hfinal, and_iff_right hfree]
  · intro t a t' hs hcancel hstep
    constructor
    · intro hnone
      refine ⟨?_, ?_⟩
      · rintro ⟨i, j, h⟩
        exact hnone ⟨i, j, deadlocked_step hs h (by rintro rfl; exact hcancel trivial)
          (by rintro rfl; exact hcancel trivial) hstep⟩
      · by_contra hsafe
        exact hnone (deadlocked_of_not_safe hs hsafe hstep)
    · rintro ⟨hnone, hsafe⟩ ⟨i, j, h⟩
      exact hnone ⟨i, j, deadlocked_of_step hs hcancel hsafe hstep h⟩

end GuardedCalls
end Rszero
