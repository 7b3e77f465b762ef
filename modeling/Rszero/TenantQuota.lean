import Mathlib.Data.Finset.Card
import Rszero.TenantScope

/-!
# The quota of users

`create` reads the number of users and the quota, and then inserts the user. Between these other
creations may have read the same number, so that the quota is exceeded, but by fewer users than
creations are under way at once.
-/

namespace Rszero.TenantManagement

open CallProgram

/-- The calls end with the reads of a creation that has found the tenant under its quota. -/
def underWay (max_users : Option ℤ) (id : ℤ) (past : Past) : Bool :=
  match past.reverse with
  | ⟨.sql (.countUsers id'), .ok count⟩ :: _ => id' = id && max_users.any (fun m => count < m)
  | ⟨.sql (.maxUsers id''), .ok m⟩ :: ⟨.sql (.countUsers id'), .ok count⟩ :: _ =>
      id' = id && id'' = id && count < m
  | _ => false

def Tables.maxUsers (db : Tables) (id : ℤ) : Option ℤ := (db.findTenant id).map TenantRow.max_users

def creates (db : Tables) (id : ℤ) (task : Task) : Bool :=
  task.live && underWay (db.maxUsers id) id task.past

def Creating (s : Service) (id : ℤ) (S : Finset ℕ) : Prop :=
  ∀ i ∈ S, (s.tasks i).any (creates s.shared.tables id)

/-- No tenant has more than `k` creations under way. -/
def AtMost (k : ℕ) (s : Service) : Prop := ∀ id S, Creating s id S → S.card ≤ k

/-- With the creations under way, the tenant has fewer than `k` users above its quota. -/
def WithinQuota (k : ℕ) (s : Service) (r : TenantRow) : Prop :=
  ∀ S, Creating s r.id S →
    ((s.shared.tables.usersOf r.id).length + S.card : ℤ) < r.max_users + k

section UnderWay

variable {max_users : Option ℤ} {id : ℤ} {past : Past}

theorem underWay_count (id' count : ℤ) :
    underWay max_users id (past ++ [⟨.sql (.countUsers id'), .ok count⟩]) =
      (id' = id && max_users.any (fun m => count < m)) := by
  simp [underWay]

/-- A call that is not one of the reads. -/
theorem underWay_other {call : Call} {ans : call.Answer}
    (hcount : ∀ id', call ≠ .sql (.countUsers id')) (hmax : ∀ id', call ≠ .sql (.maxUsers id')) :
    underWay max_users id (past ++ [⟨call, ans⟩]) = false := by
  rw [underWay, List.reverse_append]
  cases call with
  | check => rfl
  | sql st =>
      cases st with
      | countUsers id' => exact absurd rfl (hcount id')
      | maxUsers id' => exact absurd rfl (hmax id')
      | _ => rfl

theorem underWay_error {st : Statement} {e : String} :
    underWay max_users id (past ++ [⟨.sql st, .error e⟩]) = false := by
  rw [underWay, List.reverse_append]
  cases st <;> rfl

/-- The quota is read after the number. -/
theorem underWay_max {id' m : ℤ}
    (h : underWay max_users id (past ++ [⟨.sql (.maxUsers id'), .ok m⟩])) :
    id' = id ∧ underWay (some m) id past := by
  rw [underWay, List.reverse_append] at h
  rw [underWay]
  generalize past.reverse = calls at h ⊢
  cases calls with
  | nil => cases h
  | cons e calls =>
      obtain ⟨call, ans⟩ := e
      cases call with
      | check => cases h
      | sql st =>
          cases st with
          | countUsers id'' =>
              cases ans with
              | error e => cases h
              | ok count =>
                  have hread : (id'' = id && id' = id && count < m) = true := h
                  simp only [Bool.and_eq_true, decide_eq_true_eq] at hread
                  obtain ⟨⟨hcount, hmax⟩, hlt⟩ := hread
                  exact ⟨hmax, by simp [hcount, hlt]⟩
          | _ => cases h

def Checked (past : Past) (e : Sigma Call.Answer) : Prop :=
  ∀ id name email role, e.1 = .sql (.insertUser id name email role) →
    ∀ max_users, underWay max_users id past

theorem checked_of_ne {st : Statement} (hst : st.addsUser = false) (ans : Except String st.Result) :
    Checked past ⟨.sql st, ans⟩ := by
  intro id name email role heq
  cases heq
  cases hst

/-- A statement that adds no user needs no check. -/
theorem abides_of_ne {st : Statement} (hst : st.addsUser = false) :
    Abides (fun _ => True) Checked (query st) :=
  abides_query (fun _ _ _ => trivial) (fun _ ans _ => checked_of_ne hst ans)

theorem abides_create (tenant : TenantContext) (create : CreateUserReq) :
    Abides (fun _ => True) Checked (UserService.create tenant create) := by
  intro past _ count _
  refine ⟨checked_of_ne rfl _, ?_⟩
  cases count with
  | error e => trivial
  | ok count =>
      intro max_users _
      refine ⟨checked_of_ne rfl _, ?_⟩
      cases max_users with
      | error e => trivial
      | ok m =>
          change CallProgram.Ensures _ _ _ (if count ≥ m then _ else _) _
          split_ifs with hfull
          · trivial
          · intro id _
            refine ⟨fun id' name email role heq max_users => ?_, ?_⟩
            · cases heq
              have hlt : count < m := Int.not_le.1 hfull
              simp [underWay, hlt]
            · cases id with
              | error e => trivial
              | ok id =>
                  exact UserService.abides_findById (fun st _ hst => abides_of_ne hst) id _ trivial

theorem serve_checked (req : Request) :
    (serve req).Ensures (fun _ => True) Checked (fun _ _ => True) [] := by
  have hoperator (st : Statement) (hst : st.scope = .operator) :
      Abides (fun _ => True) Checked (query st) := by
    apply abides_of_ne
    cases st with
    | insertUser => cases hst
    | _ => rfl
  unfold serve
  cases req.tenant with
  | none => trivial
  | some slug =>
      intro row _
      refine ⟨checked_of_ne rfl _, ?_⟩
      match row with
      | .error e => trivial
      | .ok none => trivial
      | .ok (some tenant) =>
          intro allowed _
          refine ⟨nofun, ?_⟩
          cases allowed with
          | true =>
              exact abides_inner (fun _ => hoperator) (abides_of_ne rfl)
                (fun _ st _ hst => abides_of_ne hst) (fun _ => abides_create tenant) _ trivial
          | false => trivial

end UnderWay

section Users

variable {db db' : Tables} {st : Statement} {id : ℤ}

theorem maxUsers_eq (hdb : db.WellFormed) {r : TenantRow} (hr : r ∈ db.tenants) :
    db.maxUsers r.id = some r.max_users := by
  unfold Tables.maxUsers Tables.findTenant
  cases hfind : db.tenants.find? (fun r' => r'.id = r.id) with
  | none =>
      have hne := List.find?_eq_none.1 hfind r hr
      simp at hne
  | some r' =>
      have hid : r'.id = r.id := by simpa using List.find?_some hfind
      rw [hdb.ids r' (List.mem_of_find?_eq_some hfind) r hr hid]
      rfl

/-- Only an insert adds a user, and only one to its tenant. -/
theorem length_usersOf_write (hwrite : db.Write st db') (id : ℤ) :
    (db'.usersOf id).length ≤ (db.usersOf id).length ∨
      (∃ name email role, st = .insertUser id name email role) ∧
        (db'.usersOf id).length = (db.usersOf id).length + 1 := by
  cases hwrite with
  | keep | insertTenant | updateTenant => exact .inl le_rfl
  | @insertUser u hid =>
      by_cases hu : u.tenant_id = id
      · subst hu
        refine .inr ⟨⟨_, _, _, rfl⟩, ?_⟩
        simp [Tables.usersOf, Tables.insertUser]
      · left
        simp [Tables.usersOf, Tables.insertUser, hu]
  | updateUser column user_id tenant_id =>
      left
      simp only [Tables.usersOf, Tables.updateUser, List.filter_map, List.length_map,
        tenant_comp_set (fun tenant_id => decide (tenant_id = id))]
      exact le_rfl
  | deleteUser user_id tenant_id =>
      left
      exact (List.filter_sublist.filter _).length_le

theorem countUsers_of_run {x : Choice} {count : ℤ}
    (h : db.run x (.countUsers id) = some (.ok count, db')) :
    db' = db ∧ count = (db.usersOf id).length := by
  have hexecute := execute_of_run_ok h
  cases hexecute
  exact ⟨rfl, rfl⟩

theorem maxUsers_of_run {x : Choice} {m : ℤ}
    (h : db.run x (.maxUsers id) = some (.ok m, db')) : db' = db ∧ db.maxUsers id = some m := by
  have hexecute := execute_of_run_ok h
  simp only [Tables.execute, Option.some.injEq, Prod.mk.injEq] at hexecute
  obtain ⟨hresult, hdb⟩ := hexecute
  refine ⟨hdb.symm, ?_⟩
  unfold Tables.maxUsers
  cases hmax : (db.findTenant id).map TenantRow.max_users with
  | none =>
      rw [hmax] at hresult
      cases hresult
  | some m' =>
      rw [hmax] at hresult
      cases hresult
      rfl

end Users

section Runs

variable {k : ℕ} {s s' : Service} {stamp : ℤ} {r r' : TenantRow}

/-- No more creations are under way, and there are no more users. -/
theorem WithinQuota.mono (h : WithinQuota k s r) (hid : r'.id = r.id)
    (hmax : r'.max_users = r.max_users)
    (husers : (s'.shared.tables.usersOf r.id).length ≤ (s.shared.tables.usersOf r.id).length)
    (hcreating : ∀ S, Creating s' r.id S → Creating s r.id S) : WithinQuota k s' r' := by
  intro S hS
  rw [hid] at hS ⊢
  have hold := h S (hcreating S hS)
  omega

/-- The task has changed, but is not about to insert a user. -/
theorem creating_put {i : ℕ} {task : Task} {id : ℤ}
    (htask : creates s.shared.tables id task = false) {S : Finset ℕ}
    (hS : Creating (s.put i task) id S) : Creating s id S := by
  intro j hj
  have hcreates := hS j hj
  by_cases hji : j = i
  · subst hji
    rw [Platform.put_tasks_self, Option.any_some] at hcreates
    exact absurd hcreates (by simpa using htask)
  · rwa [Platform.put_tasks_of_ne hji] at hcreates

section Call

variable {i : ℕ} {task : Task} {x : Choice} {call : Call} {rest : call.Answer → Program Response}
  {ans : call.Answer} {shared : Server}

/-- The other tasks, and the one that calls, are as they were. -/
theorem creating_call {id : ℤ} {S : Finset ℕ}
    (hmax : shared.tables.maxUsers id = s.shared.tables.maxUsers id) (ht : s.tasks i = some task)
    (hi : i ∈ S → creates s.shared.tables id task)
    (hS : Creating ({ s with shared := shared }.put i (task.answered rest ans)) id S) :
    Creating s id S := by
  intro j hj
  by_cases hji : j = i
  · subst hji
    rw [ht]
    exact hi hj
  · have hcreates := hS j hj
    have hsame : creates shared.tables id = creates s.shared.tables id := by
      funext task
      rw [creates, creates, hmax]
    rw [Platform.put_tasks_of_ne hji, Platform.put_shared, hsame] at hcreates
    exact hcreates

/-- What a creation that goes on has read. -/
theorem underWay_call (hr : s.shared.tables.maxUsers r.id = some r.max_users) {st : Statement}
    {result : Except String st.Result} {db : Tables} {past : Past}
    (hrun : s.shared.tables.run x st = some (result, db))
    (hway : underWay (some r.max_users) r.id (past ++ [⟨.sql st, result⟩])) :
    ((s.shared.tables.usersOf r.id).length < r.max_users ∨
      underWay (some r.max_users) r.id past) ∧ db = s.shared.tables := by
  cases result with
  | error e =>
      rw [underWay_error] at hway
      cases hway
  | ok value =>
      cases st with
      | countUsers id =>
          obtain ⟨hdb, hcount⟩ := countUsers_of_run hrun
          rw [underWay_count] at hway
          simp only [Bool.and_eq_true, decide_eq_true_eq, Option.any_some] at hway
          rw [hway.1] at hcount
          exact ⟨.inl (hcount ▸ hway.2), hdb⟩
      | maxUsers id =>
          obtain ⟨hdb, hm⟩ := maxUsers_of_run hrun
          obtain ⟨rfl, hpast⟩ := underWay_max hway
          rw [hr] at hm
          obtain rfl := Option.some.inj hm
          exact ⟨.inr hpast, hdb⟩
      | _ =>
          rw [underWay_other (fun _ h => by cases h) (fun _ h => by cases h)] at hway
          cases hway

theorem WithinQuota.after (hs : Serving s) (hq : WithinQuota k s r)
    (hr : s.shared.tables.maxUsers r.id = some r.max_users) (ht : s.tasks i = some task)
    (hlive : task.live) (hrest : task.rest = .call call rest)
    (hp : s.shared.perform x call = some (ans, shared)) (hid : r'.id = r.id)
    (hmax : r'.max_users = r.max_users)
    (hmaxUsers : shared.tables.maxUsers r.id = s.shared.tables.maxUsers r.id)
    (hk : AtMost k ({ s with shared := shared }.put i (task.answered rest ans))) :
    WithinQuota k ({ s with shared := shared }.put i (task.answered rest ans)) r' := by
  intro S hS
  rw [hid] at hS ⊢
  rw [hmax]
  have hcard := hk r.id S hS
  have hchecked := (hs.reaches i task ht).ensures (serve_checked task.request) (fun _ _ => trivial)
  rw [hrest] at hchecked
  cases call with
  | check id quota =>
      cases hp
      have hi : i ∉ S := by
        intro hi
        have hcreates := hS i hi
        rw [Platform.put_tasks_self, Option.any_some, creates, Platform.Task.answered,
          underWay_other (fun _ h => by cases h) (fun _ h => by cases h),
          Bool.and_false] at hcreates
        cases hcreates
      exact hq S (creating_call hmaxUsers ht (fun h => absurd h hi) hS)
  | sql st =>
      obtain ⟨⟨result, db⟩, hrun, hresult⟩ := Option.map_eq_some_iff.1 hp
      cases hresult
      change ((db.usersOf r.id).length + S.card : ℤ) < r.max_users + k
      by_cases hi : i ∈ S
      · have hcreates := hS i hi
        rw [Platform.put_tasks_self, Option.any_some, creates, Bool.and_eq_true] at hcreates
        have hway := hcreates.2
        rw [Platform.put_shared, hmaxUsers, hr] at hway
        obtain ⟨hread, hdb⟩ := underWay_call hr hrun hway
        rw [hdb]
        rcases hread with hcount | hpast
        · omega
        · refine hq S (creating_call hmaxUsers ht (fun _ => ?_) hS)
          rw [creates, hlive, hr, hpast]
          rfl
      · have hS' : Creating s r.id S := creating_call hmaxUsers ht (fun h => absurd h hi) hS
        rcases length_usersOf_write (write_of_run hrun) r.id with
          hle | ⟨⟨name, email, role, hst⟩, hlen⟩
        · have hold := hq S hS'
          omega
        · have hway := (hchecked result trivial).1 r.id name email role (congrArg Call.sql hst)
            (some r.max_users)
          have hold := hq (insert i S) (fun j hj => ?_)
          · rw [Finset.card_insert_of_notMem hi] at hold
            push_cast at hold
            omega
          · rcases Finset.mem_insert.1 hj with rfl | hj
            · rw [ht, Option.any_some, creates, hlive, hr, hway]
              rfl
            · exact hS' j hj

end Call

theorem quota_step {a : Platform.Label Request Choice ℕ} (hs : Serving s)
    (hq : ∀ r ∈ s.shared.tables.tenants, 1 ≤ r.max_users → WithinQuota k s r)
    (hstep : (service stamp).system.step s a = some s') (hk : AtMost k s') :
    ∀ r ∈ s'.shared.tables.tenants, 1 ≤ r.max_users → WithinQuota k s' r := by
  intro r hr hpos
  have hs' := hs.step hstep
  cases Platform.next_move hstep with
  | spawn ht =>
      exact (hq r hr hpos).mono rfl rfl le_rfl (fun S hS => creating_put rfl hS)
  | @cut i task ht =>
      exact (hq r hr hpos).mono rfl rfl le_rfl (fun S hS => creating_put rfl hS)
  | env he =>
      cases he
      exact (hq r hr hpos).mono rfl rfl le_rfl (fun S hS => hS)
  | @call i x task call rest ans shared ht hlive hrest hp =>
      rcases tenant_of_perform hp hr with ⟨r₀, hr₀, hid, hmax, -⟩ | ⟨hid, husers⟩
      · have hold := maxUsers_eq hs.tables hr₀
        have hnew := maxUsers_eq hs'.tables hr
        rw [hid, hmax] at hnew
        exact (hq r₀ hr₀ (hmax ▸ hpos)).after hs hold ht hlive hrest hp hid hmax
          (hnew.trans hold.symm) hk
      · intro S hS
        have hcard := hk r.id S hS
        have hnone : shared.tables.usersOf r.id = [] := by
          rw [Tables.usersOf, husers, List.filter_eq_nil_iff]
          intro u hu
          obtain ⟨r', hr', hown⟩ := hs.tables.owned u hu
          have hle := hs.tables.upto r' hr'
          simp only [decide_eq_true_eq]
          omega
        rw [Platform.put_shared, hnone, List.length_nil]
        omega

theorem quota_init (stamp : ℤ) (k : ℕ) :
    ∀ r ∈ (service stamp).system.init.shared.tables.tenants,
      WithinQuota k (service stamp).system.init r := by
  intro r hr S hS
  have hnone : S = ∅ := by
    refine Finset.eq_empty_of_forall_notMem (fun i hi => ?_)
    cases hS i hi
  obtain rfl := List.mem_singleton.1 hr
  have husers : ((service stamp).system.init.shared.tables.usersOf 1).length = 1 := rfl
  rw [hnone, Finset.card_empty, husers]
  change ((1 : ℕ) + (0 : ℕ) : ℤ) < 10 + k
  omega

theorem quota_run {run : List (Platform.Label Request Choice ℕ)} (hs : Serving s)
    (hq : ∀ r ∈ s.shared.tables.tenants, 1 ≤ r.max_users → WithinQuota k s r)
    (hk : (service stamp).system.Throughout (AtMost k) s run)
    (he : (service stamp).system.exec s run = some s') :
    ∀ r ∈ s'.shared.tables.tenants, 1 ≤ r.max_users → WithinQuota k s' r := by
  induction run generalizing s with
  | nil => exact Option.some.inj he ▸ hq
  | cons a run ih =>
      obtain ⟨t, ht, hrest⟩ := (service stamp).system.exec_cons_eq_some.1 he
      have hrun := hk.2 t ht
      exact ih (hs.step ht) (quota_step hs hq ht hrun.head) hrun hrest

/-- A tenant whose creations overlap at most `k` at a time has fewer than `k` users above its quota:
none if no two overlap. -/
theorem users_within_quota {run : List (Platform.Label Request Choice ℕ)}
    (he : (service stamp).system.exec (service stamp).system.init run = some s)
    (hk : (service stamp).system.Throughout (AtMost k) (service stamp).system.init run)
    (hr : r ∈ s.shared.tables.tenants) (hmax : 1 ≤ r.max_users) :
    ((s.shared.tables.usersOf r.id).length : ℤ) < r.max_users + k := by
  have hinit := fun r hr (_ : 1 ≤ r.max_users) => quota_init stamp k r hr
  have hquota := quota_run (serving_init stamp) hinit hk he r hr hmax
  have hempty := hquota ∅ (fun i hi => absurd hi (Finset.notMem_empty i))
  rw [Finset.card_empty] at hempty
  omega

/-- There are no more creations than requests. -/
theorem atMost_of_lt (h : ∀ i, s.tasks i ≠ none → i < k) : AtMost k s := by
  intro id S hS
  have hsub : S ⊆ Finset.range k := by
    intro i hi
    refine Finset.mem_range.2 (h i (fun hnone => ?_))
    have hcreates := hS i hi
    rw [hnone] at hcreates
    cases hcreates
  simpa using Finset.card_le_card hsub

theorem lt_step {a : Platform.Label Request Choice ℕ} (h : ∀ i, s.tasks i ≠ none → i < k)
    (ha : ∀ i req, a = .spawn i req → i < k)
    (hstep : (service stamp).system.step s a = some s') : ∀ i, s'.tasks i ≠ none → i < k := by
  intro j hj
  have hput {i : ℕ} {task : Task} {shared : Server} (hi : i < k)
      (hj : ({ s with shared := shared }.put i task).tasks j ≠ none) : j < k := by
    by_cases hji : j = i
    · exact hji ▸ hi
    · rw [Platform.put_tasks_of_ne hji] at hj
      exact h j hj
  cases Platform.next_move hstep with
  | @spawn i req ht => exact hput (ha i req rfl) hj
  | @call i x task call rest ans shared ht => exact hput (h i (by simp [ht])) hj
  | @cut i task ht => exact hput (h i (by simp [ht])) hj
  | env he => exact h j hj

end Runs

def rush : List (Platform.Label Request Choice ℕ) :=
  (List.range 10).flatMap (fun i =>
      .spawn i ⟨some "acme", none, .createUser ⟨"Bob", toString i, .member⟩⟩ ::
        List.replicate 4 (.call i ⟨none, "", 0, 0⟩)) ++
    (List.range 10).map (fun i => .call i ⟨none, "", i + 2, 0⟩)

theorem users_within_quota_rush :
    ∃ (s : Service) (r : TenantRow), r ∈ s.shared.tables.tenants ∧ r.max_users = 10 ∧
      (s.shared.tables.usersOf r.id).length = 11 ∧
      ((s.shared.tables.usersOf r.id).length : ℤ) < r.max_users + (10 : ℕ) := by
  obtain ⟨s, he, hp⟩ := (service 0).system.exists_exec (s := (service 0).system.init) (r := rush)
    (p := fun s => s.shared.tables.tenants.any (fun r => r.max_users = 10 ∧
      (s.shared.tables.usersOf r.id).length = 11)) (by decide +kernel)
  obtain ⟨r, hr, hquota⟩ := List.any_eq_true.1 hp
  obtain ⟨hmax, hlen⟩ := of_decide_eq_true hquota
  have hlabels : ∀ a ∈ rush, ∀ i req, a = .spawn i req → i < 10 := by
    rintro a ha i req rfl
    rcases List.mem_append.1 ha with ha | ha
    · obtain ⟨j, hj, ha⟩ := List.mem_flatMap.1 ha
      rcases List.mem_cons.1 ha with ha | ha
      · cases ha
        exact List.mem_range.1 hj
      · cases List.eq_of_mem_replicate ha
    · obtain ⟨j, -, ha⟩ := List.mem_map.1 ha
      cases ha
  have hk : (service 0).system.Throughout (AtMost 10) (service 0).system.init rush :=
    TransitionSystem.throughout_of_along (fun _ => atMost_of_lt)
      (fun s a s' h ha hstep => lt_step h ha hstep) (fun i hi => absurd rfl hi)
      (TransitionSystem.along_of_mem (fun a ha _ => hlabels a ha) _)
  exact ⟨s, r, hr, hmax, hlen, users_within_quota he hk hr (by omega)⟩

end Rszero.TenantManagement
