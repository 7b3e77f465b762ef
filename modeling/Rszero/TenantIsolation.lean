import Mathlib.Data.List.Find
import Rszero.PlatformView
import Rszero.TenantScope

/-!
# A tenant is served as if it were alone

What one tenant has of the service is its row, its users and its counter. Its requests, seen from
there, run on a service of its own, in which time passes, ids go up, and the operator founds the
tenant, changes its row or uses up its quota. Nothing else happens there: whatever the other tenants
ask for, it shows in nothing but the ids of new rows.
-/

namespace Rszero.TenantManagement

open CallProgram

def Tables.idOf (db : Tables) (slug : String) : Option ℤ :=
  (db.tenants.find? (fun r => r.slug = slug)).map TenantRow.id

def Tables.of (slug : String) (db : Tables) : Tables where
  tenants := db.tenants.filter (fun r => r.slug = slug)
  users := db.users.filter (fun u => db.idOf slug = some u.tenant_id)
  last_tenant := db.last_tenant
  last_user := db.last_user

def Server.of (slug : String) (s : Server) : Server where
  tables := s.tables.of slug
  windows := fun id => if s.tables.idOf slug = some id then s.windows id else none
  now := s.now

/-- What happens to a tenant that does not come from its own requests. -/
inductive Event
  | elapse (d : ℕ)
  | tenantId (id : ℤ)
  | userId (id : ℤ)
  | founded (r : TenantRow)
  | updated (column : TenantColumn)
  | counted (quota : ℤ)

def Event.silent : Event → Bool
  | .elapse _ | .tenantId _ | .userId _ => true
  | _ => false

def Server.happen (slug : String) (s : Server) : Event → Option Server
  | .elapse d => some (s.elapse d)
  | .tenantId id =>
      if s.tables.last_tenant < id then
        some { s with tables := { s.tables with last_tenant := id } }
      else none
  | .userId id =>
      if s.tables.last_user < id then some { s with tables := { s.tables with last_user := id } }
      else none
  | .founded r =>
      if r.slug = slug ∧ s.tables.tenants = [] ∧ s.tables.last_tenant < r.id then
        some { s with tables := s.tables.insertTenant r }
      else none
  | .updated column =>
      (s.tables.idOf slug).map (fun id => { s with tables := s.tables.updateTenant column id })
  | .counted quota =>
      (s.tables.idOf slug).map (fun id =>
        { s with windows := (checkQuota s.windows s.now id quota).2 })

def alone (slug : String) (stamp : ℤ) :
    Platform Call.Answer Request Response Server Choice Event where
  shared := (Server.seeded stamp).of slug
  body := serve
  perform := Server.perform
  env := Server.happen slug

/-- The request is one of the tenant, and does not come from the operator. -/
def ownRequest (slug : String) (req : Request) : Bool :=
  req.tenant = some slug ∧ req.operates = false

def Statement.event (slug : String) (db : Tables) (x : Choice) : Statement → List Event
  | .insertTenant name slug' status plan max_users max_rpm =>
      if slug' = slug then
        [.founded ⟨x.id, name, slug', status, plan, max_users, max_rpm, x.stamp, x.stamp⟩]
      else [.tenantId x.id]
  | .insertUser .. => [.userId x.id]
  | .updateTenant column id => if db.idOf slug = some id then [.updated column] else []
  | _ => []

def Call.event (slug : String) (s : Server) (x : Choice) : Call → List Event
  | .check id quota => if s.tables.idOf slug = some id then [.counted quota] else []
  | .sql st =>
      match s.tables.run x st with
      | some (.ok _, _) => st.event slug s.tables x
      | _ => []

section Part

variable {db db' : Tables} {slug : String} {id : ℤ}

theorem idOf_eq_some_iff (h : db.WellFormed) : db.idOf slug = some id ↔ db.Named slug id := by
  constructor
  · intro hid
    obtain ⟨r, hr, rfl⟩ := Option.map_eq_some_iff.1 hid
    exact ⟨r, List.mem_of_find?_eq_some hr, by simpa using List.find?_some hr, rfl⟩
  · rintro ⟨r, hr, hslug, rfl⟩
    unfold Tables.idOf
    cases hfind : db.tenants.find? (fun r => r.slug = slug) with
    | none => exact absurd hslug (by simpa using List.find?_eq_none.1 hfind r hr)
    | some r' =>
        have hslug' : r'.slug = slug := by simpa using List.find?_some hfind
        rw [h.slugs r' (List.mem_of_find?_eq_some hfind) r hr (hslug'.trans hslug.symm)]
        rfl

theorem idOf_of (db : Tables) (slug : String) : (db.of slug).idOf slug = db.idOf slug := by
  simp [Tables.idOf, Tables.of, List.find?_filter]

theorem activeTenant_of (db : Tables) (slug : String) :
    (db.of slug).activeTenant slug = db.activeTenant slug := by
  simp [Tables.activeTenant, Tables.of, List.find?_filter]

theorem usersOf_of (h : db.idOf slug = some id) : (db.of slug).usersOf id = db.usersOf id := by
  simp only [Tables.usersOf, Tables.of, List.filter_filter, h]
  refine List.filter_congr (fun u _ => ?_)
  by_cases hu : u.tenant_id = id <;> simp [hu]

theorem findTenant_of (hdb : db.WellFormed) (h : db.idOf slug = some id) :
    (db.of slug).findTenant id = db.findTenant id := by
  obtain ⟨r, hr, hslug, hid⟩ := (idOf_eq_some_iff hdb).1 h
  simp only [Tables.findTenant, Tables.of, List.find?_filter]
  refine List.find?_congr (fun r' hr' => ?_)
  by_cases heq : r'.id = id
  · obtain rfl := hdb.ids r' hr' r hr (heq.trans hid.symm)
    simp [hslug]
  · simp [heq]

theorem findUser_of (h : db.idOf slug = some id) (user_id : ℤ) :
    (db.of slug).findUser user_id id = db.findUser user_id id := by
  rw [Tables.findUser, Tables.findUser, usersOf_of h]

theorem taken_of (h : db.idOf slug = some id) (email : String) (user_id : ℤ) :
    (db.of slug).Taken email user_id id ↔ db.Taken email user_id id := by
  rw [Tables.Taken, Tables.Taken, usersOf_of h]

theorem insertUser_of {u : UserRow} (h : db.idOf slug = some u.tenant_id) :
    (db.of slug).insertUser u = (db.insertUser u).of slug := by
  simp only [Tables.insertUser, Tables.of, Tables.idOf] at h ⊢
  simp [h]

theorem updateUser_of (db : Tables) (slug : String) (column : UserColumn) (user_id id : ℤ) :
    (db.of slug).updateUser column user_id id = (db.updateUser column user_id id).of slug := by
  have hfilter := List.filter_map (l := db.users)
    (f := fun u : UserRow => if u.id = user_id ∧ u.tenant_id = id then column.set u else u)
    (p := fun u => decide (db.idOf slug = some u.tenant_id))
  rw [tenant_comp_set (fun id => decide (db.idOf slug = some id))] at hfilter
  exact congrArg (fun us => { db.of slug with users := us }) hfilter.symm

theorem deleteUser_of (db : Tables) (slug : String) (user_id id : ℤ) :
    (db.of slug).deleteUser user_id id = (db.deleteUser user_id id).of slug := by
  simp only [Tables.deleteUser, Tables.of, Tables.idOf, List.filter_filter]
  congr 1
  exact List.filter_congr (fun u _ => Bool.and_comm ..)

/-- What executes alike on the tables of the tenant, runs alike there. -/
theorem run_of_execute {st : Statement} {x : Choice} {result : Except String st.Result}
    (hexecute : db.execute x st = some (result, db') →
      (db.of slug).execute x st = some (result, db'.of slug))
    (hrun : db.run x st = some (result, db')) :
    (db.of slug).run x st = some (result, db'.of slug) := by
  unfold Tables.run
  rcases run_cases hrun with ⟨e, hfailure, rfl, rfl⟩ | ⟨hfailure, hdb⟩
  · rw [hfailure]
  · rw [hfailure]
    exact hexecute hdb

/-- A statement about the users of the tenant is answered from what the tenant has. -/
theorem execute_of (hdb : db.WellFormed) (h : db.idOf slug = some id) {st : Statement}
    (hst : st.scope = .users id) {x : Choice} {result : Except String st.Result}
    (hexecute : db.execute x st = some (result, db')) :
    (db.of slug).execute x st = some (result, db'.of slug) := by
  cases st with
  | countUsers id' =>
      cases hst
      cases hexecute
      simp [Tables.execute, usersOf_of h]
  | maxUsers id' =>
      cases hst
      cases hexecute
      simp [Tables.execute, findTenant_of hdb h]
  | insertUser id' name email role =>
      cases hst
      simp only [Tables.execute, taken_of h] at hexecute ⊢
      change (if x.id ≤ db.last_user then none else _) = _
      split_ifs at hexecute ⊢ with hid htaken
      · cases hexecute
        rfl
      · cases hexecute
        rw [insertUser_of h]
  | listUsers id' =>
      cases hst
      cases hexecute
      simp [Tables.execute, usersOf_of h]
  | findUser user_id id' =>
      cases hst
      cases hexecute
      simp [Tables.execute, findUser_of h]
  | updateUser column user_id id' =>
      cases hst
      cases column with
      | email email =>
          simp only [Tables.execute, taken_of h, findUser_of h, updateUser_of] at hexecute ⊢
          split_ifs at hexecute ⊢ with htaken
          · cases hexecute
            rfl
          · cases hexecute
            rfl
      | name | role =>
          cases hexecute
          simp [Tables.execute, updateUser_of]
  | deleteUser user_id id' =>
      cases hst
      cases hexecute
      simp [Tables.execute, findUser_of h, deleteUser_of]
  | activeTenant | insertTenant | listTenants | findTenant | updateTenant | one => cases hst

/-- The log in of the tenant, and a statement about nothing. -/
theorem execute_of_activeTenant {x : Choice} {result : Except String (Option TenantContext)}
    (hexecute : db.execute x (.activeTenant slug) = some (result, db')) :
    (db.of slug).execute x (.activeTenant slug) = some (result, db'.of slug) := by
  cases hexecute
  simp [Tables.execute, activeTenant_of]

theorem execute_of_one {x : Choice} {result : Except String Unit}
    (hexecute : db.execute x .one = some (result, db')) :
    (db.of slug).execute x .one = some (result, db'.of slug) := by
  cases hexecute
  rfl

theorem insertUser_other {u : UserRow} (h : db.idOf slug ≠ some u.tenant_id) :
    (db.insertUser u).of slug = { db.of slug with last_user := u.id } := by
  have hfilter : (db.users ++ [u]).filter (fun u => db.idOf slug = some u.tenant_id) =
      db.users.filter (fun u => db.idOf slug = some u.tenant_id) := by
    simp [List.filter_append, h]
  exact congrArg (fun us => (⟨_, us, _, _⟩ : Tables)) hfilter

theorem updateUser_other (h : db.idOf slug ≠ some id) (column : UserColumn) (user_id : ℤ) :
    (db.updateUser column user_id id).of slug = db.of slug := by
  rw [← updateUser_of]
  have hmap : (db.of slug).users.map (fun u =>
      if u.id = user_id ∧ u.tenant_id = id then column.set u else u) = (db.of slug).users := by
    refine (List.map_congr_left (fun u hu => if_neg ?_)).trans (List.map_id' _)
    rintro ⟨-, rfl⟩
    exact h (by simpa using (List.mem_filter.1 hu).2)
  exact congrArg (fun us => { db.of slug with users := us }) hmap

theorem deleteUser_other (h : db.idOf slug ≠ some id) (user_id : ℤ) :
    (db.deleteUser user_id id).of slug = db.of slug := by
  rw [← deleteUser_of]
  have hfilter : (db.of slug).users.filter (fun u => ¬ (u.id = user_id ∧ u.tenant_id = id)) =
      (db.of slug).users := by
    refine List.filter_eq_self.2 (fun u hu => ?_)
    have hne : u.tenant_id ≠ id := by
      rintro rfl
      exact h (by simpa using (List.mem_filter.1 hu).2)
    simp [hne]
  exact congrArg (fun us => { db.of slug with users := us }) hfilter

theorem slug_comp_set (slug : String) (column : TenantColumn) (id : ℤ) :
    ((fun r : TenantRow => decide (r.slug = slug)) ∘
      fun r => if r.id = id then column.set r else r) = fun r => decide (r.slug = slug) := by
  funext r
  simp only [Function.comp_apply]
  split_ifs
  · rw [set_slug]
  · rfl

theorem idOf_updateTenant (db : Tables) (slug : String) (column : TenantColumn) (id : ℤ) :
    (db.updateTenant column id).idOf slug = db.idOf slug := by
  simp only [Tables.idOf, Tables.updateTenant, List.find?_map, slug_comp_set, Option.map_map]
  congr 1
  funext r
  simp only [Function.comp_apply]
  split_ifs
  · exact set_id ..
  · rfl

theorem updateTenant_of (db : Tables) (slug : String) (column : TenantColumn) (id : ℤ) :
    (db.of slug).updateTenant column id = (db.updateTenant column id).of slug := by
  simp only [Tables.of, idOf_updateTenant]
  simp only [Tables.updateTenant, List.filter_map, slug_comp_set]

theorem updateTenant_other (hdb : db.WellFormed) (h : db.idOf slug ≠ some id)
    (column : TenantColumn) : (db.updateTenant column id).of slug = db.of slug := by
  rw [← updateTenant_of]
  have hmap : (db.of slug).tenants.map (fun r => if r.id = id then column.set r else r) =
      (db.of slug).tenants := by
    refine (List.map_congr_left (fun r hr => if_neg ?_)).trans (List.map_id' _)
    rintro rfl
    obtain ⟨hmem, hslug⟩ := List.mem_filter.1 hr
    exact h ((idOf_eq_some_iff hdb).2 ⟨r, hmem, by simpa using hslug, rfl⟩)
  exact congrArg (fun ts => { db.of slug with tenants := ts }) hmap

theorem idOf_eq_none (h : ∀ r ∈ db.tenants, r.slug ≠ slug) : db.idOf slug = none := by
  rw [Tables.idOf, Option.map_eq_none_iff, List.find?_eq_none]
  simpa using h

theorem idOf_insertTenant_self {r : TenantRow} (hfree : ∀ r' ∈ db.tenants, r'.slug ≠ r.slug) :
    (db.insertTenant r).idOf r.slug = some r.id := by
  have hnone : db.tenants.find? (fun r' => r'.slug = r.slug) = none := by simpa using hfree
  simp [Tables.idOf, Tables.insertTenant, List.find?_append, hnone]

theorem idOf_insertTenant_of_ne {r : TenantRow} (hslug : r.slug ≠ slug) :
    (db.insertTenant r).idOf slug = db.idOf slug := by
  simp [Tables.idOf, Tables.insertTenant, List.find?_append, hslug]

theorem of_tenants_eq_nil (h : ∀ r ∈ db.tenants, r.slug ≠ slug) : (db.of slug).tenants = [] := by
  simpa [Tables.of, List.filter_eq_nil_iff] using h

/-- The operator founds the tenant: it has no users yet. -/
theorem insertTenant_of (hdb : db.WellFormed) {r : TenantRow}
    (hfree : ∀ r' ∈ db.tenants, r'.slug ≠ r.slug) (hid : db.last_tenant < r.id) :
    (db.insertTenant r).of r.slug = (db.of r.slug).insertTenant r := by
  have htenants : (db.tenants ++ [r]).filter (fun r' => r'.slug = r.slug) =
      db.tenants.filter (fun r' => r'.slug = r.slug) ++ [r] := by simp
  have husers : db.users.filter (fun u => (db.insertTenant r).idOf r.slug = some u.tenant_id) =
      db.users.filter (fun u => db.idOf r.slug = some u.tenant_id) := by
    refine List.filter_congr (fun u hu => ?_)
    obtain ⟨r', hr', hown⟩ := hdb.owned u hu
    have hle := hdb.upto r' hr'
    rw [idOf_insertTenant_self hfree, idOf_eq_none hfree]
    simp only [Option.some.injEq, reduceCtorEq, decide_false, decide_eq_false_iff_not]
    omega
  exact congrArg₂ (fun ts us => (⟨ts, us, r.id, db.last_user⟩ : Tables)) htenants husers

theorem insertTenant_other {r : TenantRow} (hslug : r.slug ≠ slug) :
    (db.insertTenant r).of slug = { db.of slug with last_tenant := r.id } := by
  have htenants : (db.tenants ++ [r]).filter (fun r' => r'.slug = slug) =
      db.tenants.filter (fun r' => r'.slug = slug) := by simp [hslug]
  have husers : db.users.filter (fun u => (db.insertTenant r).idOf slug = some u.tenant_id) =
      db.users.filter (fun u => db.idOf slug = some u.tenant_id) := by
    rw [idOf_insertTenant_of_ne hslug]
  exact congrArg₂ (fun ts us => (⟨ts, us, r.id, db.last_user⟩ : Tables)) htenants husers

theorem tenants_of_write {st : Statement} (hwrite : db.Write st db') (hst : st.scope ≠ .operator) :
    db'.tenants = db.tenants := by
  cases hwrite with
  | keep | insertUser | updateUser | deleteUser => rfl
  | insertTenant | updateTenant => exact absurd rfl hst

theorem idOf_congr (h : db'.tenants = db.tenants) (slug : String) :
    db'.idOf slug = db.idOf slug := by
  rw [Tables.idOf, Tables.idOf, h]

end Part

section Server

variable {s : Server} {slug : String} {id : ℤ}

theorem of_tables {db : Tables} (h : db.idOf slug = s.tables.idOf slug) :
    ({ s with tables := db } : Server).of slug = { s.of slug with tables := db.of slug } := by
  simp only [Server.of, h]

theorem checkQuota_of (h : s.tables.idOf slug = some id) (quota : ℤ) :
    (checkQuota (s.of slug).windows s.now id quota).1 = (checkQuota s.windows s.now id quota).1 ∧
      ({ s with windows := (checkQuota s.windows s.now id quota).2 } : Server).of slug =
        { s.of slug with windows := (checkQuota (s.of slug).windows s.now id quota).2 } := by
  have hwindow : (s.of slug).windows id = s.windows id := if_pos h
  refine ⟨by rw [checkQuota, checkQuota, hwindow], ?_⟩
  simp only [Server.of, Server.mk.injEq, true_and, and_true]
  funext id'
  by_cases heq : id' = id
  · subst heq
    simp [checkQuota, h]
  · simp [checkQuota, heq]

theorem checkQuota_other (h : s.tables.idOf slug ≠ some id) (quota : ℤ) :
    ({ s with windows := (checkQuota s.windows s.now id quota).2 } : Server).of slug =
      s.of slug := by
  simp only [Server.of, Server.mk.injEq, true_and, and_true]
  funext id'
  by_cases heq : id' = id
  · subst heq
    simp [h]
  · simp [checkQuota, heq]

end Server

section Requests

variable {s : Service} {slug : String} {i : ℕ} {task : Task} {x : Choice} {call : Call}
  {rest : call.Answer → Program Response} {ans : call.Answer} {shared : Server}

/-- Whoever was admitted is the tenant, or another one. -/
theorem Serving.idOf (h : Serving s) (ht : s.tasks i = some task) {id : ℤ}
    (hadmitted : Admitted task.request task.past id) :
    s.shared.tables.idOf slug = some id ↔ task.request.tenant = some slug := by
  obtain ⟨slug', hslug', hnamed⟩ := h.admitted i task ht id hadmitted
  rw [idOf_eq_some_iff h.tables, hslug', Option.some.injEq]
  constructor
  · rintro ⟨r, hr, hslug, hid⟩
    obtain ⟨r', hr', hslug', hid'⟩ := hnamed
    rw [← hslug, ← hslug', h.tables.ids r hr r' hr' (hid.trans hid'.symm)]
  · rintro rfl
    exact hnamed

/-- A request of the tenant is answered from what the tenant has. -/
theorem Serving.own (h : Serving s) (ht : s.tasks i = some task)
    (hown : ownRequest slug task.request) (hrest : task.rest = .call call rest)
    (hp : s.shared.perform x call = some (ans, shared)) :
    (s.shared.of slug).perform x call = some (ans, shared.of slug) := by
  have hconfined := h.confined ht hrest ans
  obtain ⟨htenant, hoperates⟩ := of_decide_eq_true hown
  cases call with
  | check id quota =>
      have hid := (h.idOf ht hconfined).2 htenant
      obtain ⟨hans, hpart⟩ := checkQuota_of hid quota
      cases hp
      rw [hpart, ← hans]
      rfl
  | sql st =>
      obtain ⟨⟨result, db⟩, hrun, hr⟩ := Option.map_eq_some_iff.1 hp
      cases hr
      have hscope : st.scope ≠ .operator := hconfined.scope_ne hoperates
      have htenants := tenants_of_write (write_of_run hrun) hscope
      rw [of_tables (idOf_congr htenants slug)]
      suffices hpart : (s.shared.tables.of slug).run x st = some (result, db.of slug) by
        change ((s.shared.tables.of slug).run x st).map _ = _
        rw [hpart]
        rfl
      cases hst : st.scope with
      | users id =>
          have husers : Confined task.request task.past st.scope := hconfined
          rw [hst] at husers
          have hid := (h.idOf ht husers.1).2 htenant
          exact run_of_execute (execute_of h.tables hid hst) hrun
      | operator => exact absurd hst hscope
      | login slug' =>
          have hlogin : Confined task.request task.past st.scope := hconfined
          rw [hst, Confined, htenant] at hlogin
          obtain rfl := Option.some.inj hlogin
          cases st with
          | activeTenant slug' =>
              cases hst
              exact run_of_execute execute_of_activeTenant hrun
          | _ => cases hst
      | nothing =>
          cases st with
          | one => exact run_of_execute execute_of_one hrun
          | _ => cases hst
      | counter => cases st <;> cases hst

/-- The tenants gain the row of the tenant, or that of another one. -/
theorem Serving.founding (h : Serving s) {r : TenantRow}
    (hfree : ∀ r' ∈ s.shared.tables.tenants, r'.slug ≠ r.slug)
    (hid : s.shared.tables.last_tenant < r.id) (stamp : ℤ) :
    (alone slug stamp).envs (s.shared.of slug)
        (if r.slug = slug then [.founded r] else [.tenantId r.id]) =
      some ({ s.shared with tables := s.shared.tables.insertTenant r }.of slug) := by
  split_ifs with hslug
  · subst hslug
    have hwindows : ∀ id, s.shared.windows id ≠ none → id ≠ r.id := by
      intro id hwindow
      obtain ⟨r', hr', hid'⟩ := h.windows id hwindow
      have hle := h.tables.upto r' hr'
      omega
    have hfound : r.slug = r.slug ∧ (s.shared.of r.slug).tables.tenants = [] ∧
        (s.shared.of r.slug).tables.last_tenant < r.id := ⟨rfl, of_tenants_eq_nil hfree, hid⟩
    rw [Platform.envs_singleton]
    change (if _ then _ else none) = _
    rw [if_pos hfound]
    congr 1
    simp only [Server.of, Server.mk.injEq, and_true, insertTenant_of h.tables hfree hid,
      idOf_insertTenant_self hfree, idOf_eq_none hfree, true_and]
    funext id
    by_cases hwindow : s.shared.windows id = none
    · simp [hwindow]
    · simp [(hwindows id hwindow).symm]
  · have hlast : (s.shared.of slug).tables.last_tenant < r.id := hid
    rw [of_tables (idOf_insertTenant_of_ne hslug), insertTenant_other hslug,
      Platform.envs_singleton]
    change (if _ then _ else none) = _
    rw [if_pos hlast]
    rfl

/-- What a statement of another request does to the tenant is an event. -/
theorem Serving.event (h : Serving s) {st : Statement} {db : Tables} {result : st.Result}
    (hrun : s.shared.tables.run x st = some (.ok result, db))
    (hst : ∀ id, st.scope = .users id → s.shared.tables.idOf slug ≠ some id) (stamp : ℤ) :
    (alone slug stamp).envs (s.shared.of slug) (st.event slug s.shared.tables x) =
      some ({ s.shared with tables := db }.of slug) := by
  have hexecute := execute_of_run_ok hrun
  cases st with
  | activeTenant | listTenants | findTenant | countUsers | maxUsers | listUsers | findUser | one =>
      rw [← (Prod.mk.inj (Option.some.inj hexecute)).2]
      rfl
  | insertTenant name slug' status plan max_users max_rpm =>
      simp only [Tables.execute] at hexecute
      split_ifs at hexecute with hfree hid
      · cases hexecute
      · cases hexecute
        refine h.founding (r := ⟨x.id, name, slug', status, plan, max_users, max_rpm, x.stamp,
          x.stamp⟩) ?_ (Int.not_le.1 hid) stamp
        simpa using hfree
  | insertUser id name email role =>
      have hother := hst id rfl
      simp only [Tables.execute] at hexecute
      split_ifs at hexecute with hid
      · cases hexecute
      · cases hexecute
        have hlast : (s.shared.of slug).tables.last_user < x.id := Int.not_le.1 hid
        refine Eq.trans ?_ (congrArg some (of_tables (by rfl)).symm)
        rw [insertUser_other hother, Statement.event, Platform.envs_singleton]
        change (if _ then _ else none) = _
        rw [if_pos hlast]
        rfl
  | updateTenant column id =>
      cases hexecute
      rw [of_tables (idOf_updateTenant ..), Statement.event]
      split_ifs with hid
      · rw [Platform.envs_singleton, ← updateTenant_of]
        change ((s.shared.of slug).tables.idOf slug).map _ = _
        rw [show (s.shared.of slug).tables.idOf slug = some id from (idOf_of ..).trans hid]
        rfl
      · rw [updateTenant_other h.tables hid]
        rfl
  | updateUser column user_id id =>
      have hother := hst id rfl
      have hdb : db = s.shared.tables.updateUser column user_id id := by
        cases column with
        | email email =>
            simp only [Tables.execute] at hexecute
            split_ifs at hexecute
            · cases hexecute
            · cases hexecute
              rfl
        | name | role =>
            cases hexecute
            rfl
      rw [hdb]
      refine Eq.trans ?_ (congrArg some (of_tables (by rfl)).symm)
      rw [updateUser_other hother]
      rfl
  | deleteUser user_id id =>
      cases hexecute
      refine Eq.trans ?_ (congrArg some (of_tables (by rfl)).symm)
      rw [deleteUser_other (hst id rfl)]
      rfl

/-- What another request does to the tenant is an event. -/
theorem Serving.other (h : Serving s) (ht : s.tasks i = some task)
    (hother : ownRequest slug task.request = false) (hrest : task.rest = .call call rest)
    (hp : s.shared.perform x call = some (ans, shared)) (stamp : ℤ) :
    (alone slug stamp).envs (s.shared.of slug) (call.event slug s.shared x) =
      some (shared.of slug) := by
  have hconfined := h.confined ht hrest ans
  cases call with
  | check id quota =>
      cases hp
      by_cases hid : s.shared.tables.idOf slug = some id
      · rw [Call.event, if_pos hid, (checkQuota_of hid quota).2]
        have hid' : (s.shared.of slug).tables.idOf slug = some id := (idOf_of ..).trans hid
        simp [Platform.envs, alone, Server.happen, hid']
        rfl
      · rw [Call.event, if_neg hid, checkQuota_other hid]
        rfl
  | sql st =>
      obtain ⟨⟨result, db⟩, hrun, hr⟩ := Option.map_eq_some_iff.1 hp
      cases hr
      cases result with
      | error e =>
          rw [run_error hrun]
          simp only [Call.event, hrun]
          rfl
      | ok result =>
          simp only [Call.event, hrun]
          refine h.event hrun (fun id hst hid => ?_) stamp
          have husers : Confined task.request task.past st.scope := hconfined
          rw [hst] at husers
          have htenant := (h.idOf ht husers.1).1 hid
          simp [ownRequest, htenant, husers.2] at hother

end Requests

def tenantView (slug : String) (stamp : ℤ) : Platform.View (service stamp) (alone slug stamp) where
  Inv := Serving
  mine := ownRequest slug
  part := Server.of slug
  choice := id
  effect s x call := call.event slug s x
  passing d := [.elapse d]
  inv_init := serving_init stamp
  inv_step _ _ _ h hstep := h.step hstep
  part_init := rfl
  body_eq _ _ := rfl
  own h ht hown hrest hp := h.own ht hown hrest hp
  other h ht hother hrest hp := h.other ht hother hrest hp stamp
  env := by
    intro s d shared _ he
    cases he
    rfl

section Isolation

variable {slug : String} {stamp : ℤ} {s s' : Service}

def Unattended (s : Service) : Prop :=
  ∀ i task, s.tasks i = some task → task.request.operates = false

theorem Unattended.put (h : Unattended s) {i : ℕ} {task : Task}
    (htask : task.request.operates = false) : Unattended (s.put i task) :=
  Platform.forall_put h htask

theorem Unattended.step {a : Platform.Label Request Choice ℕ} (h : Unattended s)
    (ha : ∀ i req, a = .spawn i req → req.operates = false)
    (hstep : (service stamp).system.step s a = some s') : Unattended s' := by
  cases Platform.next_move hstep with
  | @spawn i req ht => exact h.put (ha i req rfl)
  | @call i x task call rest ans shared ht hlive hrest hp =>
      have hshared : Unattended { s with shared := shared } := h
      exact hshared.put (h i task ht)
  | @cut i task ht => exact h.put (h i task ht)
  | env he => exact h

/-- Without requests of the operator, the others are noticed in ids only. -/
theorem event_silent (hs : Serving s) (hun : Unattended s) {i : ℕ} {task : Task} {x : Choice}
    {call : Call} {rest : call.Answer → Program Response} (ht : s.tasks i = some task)
    (hother : ownRequest slug task.request = false) (hrest : task.rest = .call call rest)
    (ans : call.Answer) : ∀ e ∈ call.event slug s.shared x, e.silent := by
  have hconfined := hs.confined ht hrest ans
  have hoperates := hun i task ht
  intro e he
  cases call with
  | check id quota =>
      have hid : s.shared.tables.idOf slug ≠ some id := by
        intro hid
        have htenant := (hs.idOf ht hconfined).1 hid
        simp [ownRequest, htenant, hoperates] at hother
      rw [Call.event, if_neg hid] at he
      cases he
  | sql st =>
      have hscope : st.scope ≠ .operator := hconfined.scope_ne hoperates
      simp only [Call.event] at he
      split at he
      · cases st with
        | insertUser =>
            rw [List.mem_singleton.1 he]
            rfl
        | insertTenant | updateTenant => exact absurd rfl hscope
        | _ => cases he
      · cases he

theorem silent_steps (hs : Serving s) (hun : Unattended s) {a : Platform.Label Request Choice ℕ}
    (hstep : (service stamp).system.step s a = some s') :
    ∀ e, .env e ∈ (tenantView slug stamp).steps s a → e.silent := by
  intro e he
  cases Platform.next_move hstep with
  | spawn ht =>
      simp only [Platform.View.steps] at he
      split_ifs at he
      · cases List.mem_singleton.1 he
      · cases he
  | @call i x task call rest ans shared ht hlive hrest hp =>
      by_cases hown : ownRequest slug task.request
      · rw [Platform.View.steps_call_mine ht hown] at he
        cases List.mem_singleton.1 he
      · have hother : ownRequest slug task.request = false := by simpa using hown
        rw [Platform.View.steps_call_other ht hother hrest] at he
        obtain ⟨e', he', heq⟩ := List.mem_map.1 he
        cases heq
        exact event_silent hs hun ht hother hrest ans e he'
  | @cut i task ht =>
      simp only [Platform.View.steps] at he
      split_ifs at he
      · cases List.mem_singleton.1 he
      · cases he
  | @env d shared henv =>
      obtain ⟨e', he', heq⟩ := List.mem_map.1 he
      cases heq
      rw [List.mem_singleton.1 he']
      rfl

theorem silent_run (hs : Serving s) (hun : Unattended s)
    {run : List (Platform.Label Request Choice ℕ)}
    (hrun : ∀ i req, .spawn i req ∈ run → req.operates = false)
    (he : (service stamp).system.exec s run = some s') :
    ∀ e, .env e ∈ (tenantView slug stamp).simulation.run s run → e.silent := by
  induction run generalizing s with
  | nil =>
      intro e he
      cases he
  | cons a run ih =>
      obtain ⟨t, ht, hrest⟩ := (service stamp).system.exec_cons_eq_some.1 he
      intro e he
      rw [(tenantView slug stamp).simulation.run_cons ht] at he
      rcases List.mem_append.1 he with he | he
      · exact silent_steps hs hun ht e he
      · have hun' := hun.step (fun i req ha => hrun i req (ha ▸ List.mem_cons_self)) ht
        exact ih (hs.step ht) hun' (fun i req hmem => hrun i req (List.mem_cons_of_mem _ hmem))
          hrest e he

/-- Whatever requests come from whom, and however they interleave: a tenant's requests are answered,
and its rows and its counter are left, as by a run of a service of its own. What comes to that run
from outside is the passing of time, ids taken by others, and the acts of the operator, and the
last of these only if there are requests of the operator. -/
theorem served_alone (slug : String) (stamp : ℤ) {run : List (Platform.Label Request Choice ℕ)}
    (he : (service stamp).system.exec (service stamp).system.init run = some s) :
    ∃ run', (alone slug stamp).system.exec (alone slug stamp).system.init run' =
        some ((tenantView slug stamp).view s) ∧
      ((∀ i req, .spawn i req ∈ run → req.operates = false) →
        ∀ e, .env e ∈ run' → e.silent) := by
  refine ⟨(tenantView slug stamp).simulation.run (service stamp).system.init run,
    (tenantView slug stamp).simulation.exec_view he, fun hrun => ?_⟩
  refine silent_run (serving_init stamp) ?_ hrun he
  intro i task ht
  cases ht

end Isolation

def responseOf (s : Service) (i : ℕ) : Option Response :=
  (s.tasks i).bind (fun task =>
    match task.rest with
    | .done response => some response
    | _ => none)

def choose (id : ℤ) : Choice := ⟨none, "", id, 0⟩

/-- The operator founds a second tenant; its first user is created, and asked for by the first
tenant. -/
def foreignUser : List (Platform.Label Request Choice ℕ) :=
  .spawn 0 ⟨some "acme", some "supersecrettoken", .createTenant ⟨"Beta Corp", "beta", .pro⟩⟩ ::
    List.replicate 4 (.call 0 (choose 2)) ++
  .spawn 1 ⟨some "beta", none, .createUser ⟨"Bob", "bob@beta.com", .member⟩⟩ ::
    List.replicate 6 (.call 1 (choose 2)) ++
  .spawn 2 ⟨some "acme", none, .getUser 2⟩ :: List.replicate 3 (.call 2 (choose 0))

theorem served_alone_foreignUser :
    ∃ (s : Service) (run' : List (Platform.Label Request Choice Event)),
      responseOf s 1 = some (.ok (.user ⟨2, 2, "Bob", "bob@beta.com", .member, 0, 0⟩)) ∧
      responseOf s 2 = some (.err 404 "user not found") ∧
      (alone "acme" 0).system.exec (alone "acme" 0).system.init run' =
        some ((tenantView "acme" 0).view s) := by
  obtain ⟨s, he, hp⟩ := (service 0).system.exists_exec (s := (service 0).system.init)
    (r := foreignUser) (p := fun s =>
      responseOf s 1 = some (.ok (.user ⟨2, 2, "Bob", "bob@beta.com", .member, 0, 0⟩)) ∧
        responseOf s 2 = some (.err 404 "user not found"))
    (by decide +kernel)
  obtain ⟨hcreated, hanswer⟩ := of_decide_eq_true hp
  obtain ⟨run', hrun', -⟩ := served_alone "acme" 0 he
  exact ⟨s, run', hcreated, hanswer, hrun'⟩

end Rszero.TenantManagement
