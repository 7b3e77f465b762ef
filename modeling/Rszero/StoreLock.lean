import Rszero.FairLock

/-!
# The lock around the connection of a store

`Store` keeps its connection behind a lock: a call reads it, `reconnect` writes it.
`publish_reliable` and `sweep` hold a guard while `try_publish` takes another one. Any number of
calls is under way, and a tick of a background check is a call of its own.
-/

namespace Rszero.StoreLock

open GuardedProgram (Disciplined)

/-- What a call awaits besides guards. -/
inductive Await
  | ping
  | connect
  | statement
  | select
  | push
  | setDependency
  deriving DecidableEq

/-- Whether it went well, and of a query the number of its rows. -/
abbrev Await.Answer : Await → Type
  | .select => Option ℕ
  | .setDependency => Unit
  | _ => Bool

instance (q : Await) : Nonempty q.Answer := by
  cases q <;> infer_instance

abbrev Program := GuardedProgram Await.Answer

def acquire (a : Access) (next : Program) : Program := .call (.acquire a) fun _ => next

def release (a : Access) (next : Program) : Program := .call (.release a) fun _ => next

def await (q : Await) (next : q.Answer → Program) : Program := .call (.other q) next

def ping (next : Bool → Program) : Program :=
  acquire .read <| await .ping fun ok => release .read (next ok)

def reconnect (next : Program) : Program :=
  await .connect fun connected =>
    if connected then acquire .write (release .write next) else next

/-- A tick of `start_health_check`. -/
def healthCheck : Program :=
  ping fun ok => if ok then .done () else reconnect (.done ())

/-- A tick of `monitor_health`. -/
def monitorHealth : Program :=
  ping fun ok => await .setDependency fun _ => if ok then .done () else reconnect (.done ())

def statements : ℕ → Program → Program
  | 0, next => next
  | n + 1, next => await .statement fun ok => if ok then statements n next else next

/-- A function that sends its statements with one guard: `execute`, `transaction`, and those of the
migrator and of the saga persister. -/
def guarded (n : ℕ) : Program := acquire .read (statements n (release .read (.done ())))

def tryPublish (next : Bool → Program) : Program :=
  await .push fun pushed =>
    if pushed then acquire .read <| await .statement fun ok => release .read (next ok)
    else next false

def publishReliable : Program :=
  acquire .read <| await .statement fun inserted =>
    if inserted then tryPublish fun _ => release .read (.done ())
    else release .read (.done ())

/-- The loop of `sweep`; a row that is not published is updated with the guard of the loop. -/
def sweepRows : ℕ → Program
  | 0 => release .read (.done ())
  | n + 1 => tryPublish fun published =>
      if published then sweepRows n else await .statement fun _ => sweepRows n

def sweep : Program :=
  acquire .read <| await .select fun rows =>
    match rows with
    | some n => sweepRows (min n 100)
    | none => release .read (.done ())

inductive Call
  | guarded (n : ℕ)
  | ping
  | reconnect
  | healthCheck
  | monitorHealth
  | publishReliable
  | sweep
  deriving DecidableEq

namespace Call

def body : Call → Program
  | .guarded n => StoreLock.guarded n
  | .ping => StoreLock.ping fun _ => .done ()
  | .reconnect => StoreLock.reconnect (.done ())
  | .healthCheck => StoreLock.healthCheck
  | .monitorHealth => StoreLock.monitorHealth
  | .publishReliable => StoreLock.publishReliable
  | .sweep => StoreLock.sweep

def publishes : Call → Bool
  | .publishReliable | .sweep => true
  | _ => false

def reconnects : Call → Bool
  | .reconnect | .healthCheck | .monitorHealth => true
  | _ => false

def depth (k : Call) : ℕ := if k.publishes then 2 else 1

end Call

variable {depth reading : ℕ} {writes writing : Bool}

theorem disciplined_ping {next : Bool → Program} (hdepth : 0 < depth)
    (h : ∀ ok, Disciplined depth writes (next ok) 0 false) :
    Disciplined depth writes (ping next) 0 false :=
  ⟨rfl, hdepth, fun ok => ⟨Nat.one_pos, h ok⟩⟩

theorem disciplined_reconnect {next : Program} (h : Disciplined depth true next 0 false) :
    Disciplined depth true (reconnect next) 0 false := by
  intro connected
  cases connected with
  | true => exact ⟨rfl, rfl, rfl, rfl, h⟩
  | false => exact h

theorem disciplined_statements {n : ℕ} {next : Program}
    (h : Disciplined depth writes next reading writing) :
    Disciplined depth writes (statements n next) reading writing := by
  induction n with
  | zero => exact h
  | succ n ih =>
      intro ok
      cases ok with
      | true => exact ih
      | false => exact h

/-- The guard of `try_publish` comes on top of that of its caller. -/
theorem disciplined_tryPublish {next : Bool → Program} (hdepth : reading < depth)
    (h : ∀ ok, Disciplined depth writes (next ok) reading false) :
    Disciplined depth writes (tryPublish next) reading false := by
  intro pushed
  cases pushed with
  | true => exact ⟨rfl, hdepth, fun ok => ⟨Nat.succ_pos reading, h ok⟩⟩
  | false => exact h false

theorem disciplined_sweepRows (n : ℕ) : Disciplined 2 false (sweepRows n) 1 false := by
  induction n with
  | zero => exact ⟨Nat.one_pos, rfl, rfl⟩
  | succ n ih =>
      refine disciplined_tryPublish (by decide) fun published => ?_
      cases published with
      | true => exact ih
      | false => exact fun _ => ih

theorem disciplined_body (k : Call) : Disciplined k.depth k.reconnects k.body 0 false := by
  have hended : Disciplined 1 true (.done () : Program) 0 false := ⟨rfl, rfl⟩
  have hdropped : Disciplined 2 false (release .read (.done ()) : Program) 1 false :=
    ⟨Nat.one_pos, rfl, rfl⟩
  cases k with
  | guarded n => exact ⟨rfl, Nat.one_pos, disciplined_statements ⟨Nat.one_pos, rfl, rfl⟩⟩
  | ping => exact disciplined_ping Nat.one_pos fun _ => ⟨rfl, rfl⟩
  | reconnect => exact disciplined_reconnect hended
  | healthCheck =>
      refine disciplined_ping Nat.one_pos fun ok => ?_
      cases ok with
      | true => exact hended
      | false => exact disciplined_reconnect hended
  | monitorHealth =>
      refine disciplined_ping Nat.one_pos fun ok _ => ?_
      cases ok with
      | true => exact hended
      | false => exact disciplined_reconnect hended
  | publishReliable =>
      refine ⟨rfl, Nat.two_pos, fun inserted => ?_⟩
      cases inserted with
      | true => exact disciplined_tryPublish (by decide) fun _ => hdropped
      | false => exact hdropped
  | sweep =>
      refine ⟨rfl, Nat.two_pos, fun rows => ?_⟩
      cases rows with
      | some n => exact disciplined_sweepRows (min n 100)
      | none => exact hdropped

def calls : GuardedCalls Await.Answer Call where
  body := Call.body
  depth := Call.depth
  writes := Call.reconnects
  disciplined := disciplined_body

abbrev State := GuardedCalls.State Await.Answer Call

abbrev Label := GuardedCalls.Label Await.Answer Call

/-- A publisher waits for its second guard behind a reconnection that waits for its first one. -/
structure Deadlock (s : State) (i j : ℕ) : Prop where
  locked : s.lock.Deadlocked i j
  publisher : ∃ task, s.tasks[i]? = some task ∧ task.call.publishes
  reconnection : ∃ task, s.tasks[j]? = some task ∧ task.call.reconnects

theorem deadlock_iff {s : State} (h : calls.Sound s) {i j : ℕ} :
    Deadlock s i j ↔ s.lock.Deadlocked i j := by
  refine ⟨Deadlock.locked, fun hlocked => ⟨hlocked, ?_, ?_⟩⟩
  · have hwaits := hlocked.2.subset (List.mem_cons_of_mem _ List.mem_cons_self)
    obtain ⟨task, next, ht, hrest⟩ := h.asked i .read hwaits
    obtain ⟨-, hdepth⟩ := h.waits_read hlocked.1 ht hrest
    refine ⟨task, ht, ?_⟩
    by_contra hnot
    have hone : calls.depth task.call = 1 := if_neg hnot
    omega
  · obtain ⟨task, next, ht, hrest⟩ := h.asked j .write (hlocked.2.subset List.mem_cons_self)
    have hdisciplined := h.disciplined j task ht
    rw [hrest] at hdisciplined
    exact ⟨task, ht, hdisciplined.1⟩

/-- The calls come to a halt only when a publisher and a reconnection wait for one another, and
while nobody drops a call that is so exactly if some publisher has asked for its second guard
behind a reconnection that was waiting. -/
theorem stuck_only_in_deadlock {as : List Label} {s : State}
    (he : calls.system.exec calls.system.init as = some s) :
    (calls.Stuck s → ∃ i j, Deadlock s i j) ∧
      ((∀ a ∈ as, ¬ a.IsCancel) → ((∃ i j, Deadlock s i j) ↔
        ¬ calls.system.Along GuardedCalls.Safe calls.system.init as)) := by
  have hs := GuardedCalls.sound_exec he
  simp only [deadlock_iff hs]
  exact ⟨GuardedCalls.exists_deadlocked hs, fun ha => GuardedCalls.exists_deadlocked_iff ha he⟩

/-- Unless one of the two is dropped, they wait for one another for good. While no call is dropped,
the requests for reading that were made before those of all reconnections are granted in their
order, each as soon as those before it have been, and no other request ever is. -/
theorem deadlock_for_good {as bs : List Label} {s s' : State} {i j : ℕ}
    (he : calls.system.exec calls.system.init as = some s) (h : Deadlock s i j)
    (he' : calls.system.exec s bs = some s') :
    (.cancel i ∉ bs → .cancel j ∉ bs → Deadlock s' i j) ∧
      ((∀ b ∈ bs, ¬ b.IsCancel) → ∃ rest,
        GuardedCalls.front s = bs.filterMap GuardedCalls.Label.granted ++ rest ∧
          ∀ k ∈ rest.head?, (calls.system.step s' (.grant k)).isSome) := by
  have hs := GuardedCalls.sound_exec he
  have hrun := calls.system.exec_append he he'
  have hs' := GuardedCalls.sound_exec hrun
  refine ⟨fun hi hj => (deadlock_iff hs').2 (GuardedCalls.deadlocked_exec hs h.locked hi hj he'),
    fun hb => ⟨GuardedCalls.front s', GuardedCalls.front_exec hs h.locked hb he', ?_⟩⟩
  intro k hk
  have hkept : s'.lock.Deadlocked i j :=
    GuardedCalls.deadlocked_exec hs h.locked (fun hmem => hb _ hmem trivial)
      (fun hmem => hb _ hmem trivial) he'
  have hfree : s'.lock.writer = none :=
    (GuardedCalls.exclusive_exec hrun).resolve_right (List.ne_nil_of_mem hkept.1)
  exact GuardedCalls.grant_of_front hs' hfree hk

/-- The health check reconnects while a message is being published. -/
def blocked : List Label :=
  [.spawn .publishReliable, .ask 0, .grant 0, .reply 0 ⟨.statement, true⟩,
    .spawn .healthCheck, .ask 1, .grant 1, .reply 1 ⟨.ping, false⟩, .release 1,
    .reply 1 ⟨.connect, true⟩, .ask 1, .reply 0 ⟨.push, true⟩, .ask 0]

theorem exec_blocked : ∃ s, calls.system.exec calls.system.init blocked = some s ∧
    s.lock = ⟨[0], none, [(1, .write), (0, .read)]⟩ ∧ calls.Stuck s := by
  refine ⟨_, rfl, rfl, ⟨_, List.mem_cons_self, nofun⟩, fun a ha => ?_⟩
  cases a with
  | spawn k => exact ha.elim
  | cancel i => exact ha.elim
  | ask i | grant i | release i | reply i e =>
      match i with
      | 0 => rfl
      | 1 => rfl
      | _ + 2 => rfl

theorem deadlock_blocked {s : State} (he : calls.system.exec calls.system.init blocked = some s)
    (hlock : s.lock = ⟨[0], none, [(1, .write), (0, .read)]⟩) : Deadlock s 0 1 := by
  rw [deadlock_iff (GuardedCalls.sound_exec he), hlock]
  exact ⟨.head [], .refl _⟩

theorem stuck_only_in_deadlock_blocked :
    ¬ calls.system.Along GuardedCalls.Safe calls.system.init blocked ∧
      ∃ s, calls.system.exec calls.system.init blocked = some s ∧ ∃ i j, Deadlock s i j := by
  obtain ⟨s, he, hlock, hstuck⟩ := exec_blocked
  have hkept : ∀ a ∈ blocked, ¬ a.IsCancel := by simp [blocked, GuardedCalls.Label.IsCancel]
  obtain ⟨hdeadlock, hexact⟩ := stuck_only_in_deadlock he
  exact ⟨(hexact hkept).1 ⟨0, 1, deadlock_blocked he hlock⟩, s, he, hdeadlock hstuck⟩

/-- A ping that asked before the health check wanted to reconnect gets its guard. -/
def crowded : List Label :=
  [.spawn .publishReliable, .ask 0, .grant 0, .reply 0 ⟨.statement, true⟩,
    .spawn .healthCheck, .ask 1, .grant 1, .reply 1 ⟨.ping, false⟩, .release 1,
    .reply 1 ⟨.connect, true⟩, .spawn .ping, .ask 2, .ask 1, .reply 0 ⟨.push, true⟩, .ask 0]

theorem deadlock_for_good_crowded :
    ∃ s s', calls.system.exec calls.system.init crowded = some s ∧
      calls.system.exec s [.grant 2, .spawn .ping, .ask 3] = some s' ∧ Deadlock s' 0 1 ∧
        ∃ rest, GuardedCalls.front s = [2] ++ rest := by
  obtain ⟨s, he, hlock, s', he'⟩ :
      ∃ s, calls.system.exec calls.system.init crowded = some s ∧
        s.lock = ⟨[0], none, [(2, .read), (1, .write), (0, .read)]⟩ ∧
          ∃ s', calls.system.exec s [.grant 2, .spawn .ping, .ask 3] = some s' :=
    ⟨_, rfl, rfl, _, rfl⟩
  have hdeadlock : Deadlock s 0 1 := by
    rw [deadlock_iff (GuardedCalls.sound_exec he), hlock]
    exact ⟨.head [], .cons _ (.refl _)⟩
  obtain ⟨hgood, hgranted⟩ := deadlock_for_good he hdeadlock he'
  obtain ⟨rest, hfront, -⟩ := hgranted (by simp [GuardedCalls.Label.IsCancel])
  exact ⟨s, s', he, he', hgood (by simp) (by simp), rest, hfront⟩

end Rszero.StoreLock
