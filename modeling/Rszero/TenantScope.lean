import Rszero.TenantRequests

/-!
# Whose rows a request touches

Every request asks the database for the tenant of its header first. All that follows is about the
tenant that was found, but for the tenants themselves, which are left to requests with the token of
the operator. While requests run, a tenant keeps its id and its slug.
-/

namespace Rszero.TenantManagement

open CallProgram

/-- What a call is about: who logs in, the counter of a tenant, its users, or all tenants. -/
inductive Scope
  | login (slug : String)
  | counter (tenant_id : ℤ)
  | users (tenant_id : ℤ)
  | operator
  | nothing

def Statement.scope : Statement → Scope
  | .activeTenant slug => .login slug
  | .insertTenant .. | .listTenants | .findTenant _ | .updateTenant .. => .operator
  | .countUsers id | .maxUsers id | .insertUser id .. | .listUsers id | .findUser _ id
  | .updateUser _ _ id | .deleteUser _ id => .users id
  | .one => .nothing

def Call.scope : Call → Scope
  | .check id _ => .counter id
  | .sql st => st.scope

/-- A request of the operator: it gets through `admin_guard_middleware`. -/
def Request.operates (req : Request) : Bool := req.route.guarded && req.isAdmin

abbrev Past := Calls Call.Answer

def Admitted (req : Request) (past : Past) (tenant_id : ℤ) : Prop :=
  ∃ slug tenant, req.tenant = some slug ∧ tenant.tenant_id = tenant_id ∧
    ⟨.sql (.activeTenant slug), .ok (some tenant)⟩ ∈ past

def Confined (req : Request) (past : Past) : Scope → Prop
  | .login slug => req.tenant = some slug
  | .counter id => Admitted req past id
  | .users id => Admitted req past id ∧ req.operates = false
  | .operator => req.operates
  | .nothing => True

/-- After calls with `J`, which lasts, every call of the program meets `guar`. -/
def Abides {α : Type} (J : Past → Prop) (guar : Past → Sigma Call.Answer → Prop) (p : Program α) :
    Prop :=
  ∀ past, J past → p.Ensures (fun _ => True) guar (fun past _ => J past) past

section Abides

variable {α β : Type} {J : Past → Prop} {guar : Past → Sigma Call.Answer → Prop}

theorem abides_done (a : α) : Abides J guar (.done a) := fun _ h => h

theorem Abides.bind {p : Program α} {f : α → Program β} (hp : Abides J guar p)
    (hf : ∀ a, Abides J guar (f a)) : Abides J guar (p.bind f) :=
  fun past h => (hp past h).bind (fun past' a h' => hf a past' h')

theorem Abides.andThen {p : Fallible α} {f : α → Fallible β} (hp : Abides J guar p)
    (hf : ∀ a, Abides J guar (f a)) : Abides J guar (p.andThen f) := by
  refine hp.bind (fun result => ?_)
  cases result with
  | ok a => exact hf a
  | error e => exact abides_done _

theorem Abides.answer {p : Fallible α} (hp : Abides J guar p) (data : α → Data)
    (failed : String → Response) : Abides J guar (answer p data failed) := by
  refine hp.bind (fun result => ?_)
  cases result <;> exact abides_done _

theorem abides_query (hJ : ∀ past e, J past → J (past ++ [e])) {st : Statement}
    (hst : ∀ past ans, J past → guar past ⟨.sql st, ans⟩) : Abides J guar (query st) :=
  fun past h ans _ => ⟨hst past ans h, hJ past _ h⟩

end Abides

def Statement.addsUser : Statement → Bool
  | .insertUser .. => true
  | _ => false

section Services

variable {J : Past → Prop} {guar : Past → Sigma Call.Answer → Prop} {tenant : TenantContext}

section Operator

variable (hop : ∀ st, st.scope = .operator → Abides J guar (query st))

include hop

theorem TenantService.abides_findById (id : ℤ) : Abides J guar (TenantService.findById id) :=
  (hop _ rfl).andThen (fun _ => abides_done _)

theorem TenantService.abides_updateColumns (id : ℤ) (columns : List TenantColumn) :
    Abides J guar (TenantService.updateColumns id columns) := by
  induction columns with
  | nil => exact abides_done _
  | cons column columns ih => exact (hop _ rfl).andThen (fun _ => ih)

theorem abides_handle_guarded (hone : Abides J guar (query .one)) {route : Route}
    (hroute : route.guarded) : Abides J guar (handle tenant route) := by
  cases route with
  | rejected | health => exact abides_done _
  | ready => exact hone.answer _ _
  | listTenants => exact ((hop _ rfl).andThen (fun _ => abides_done _)).answer _ _
  | createTenant create =>
      rw [handle]
      split_ifs
      · exact abides_done _
      · refine Abides.answer ?_ _ _
        exact (hop _ rfl).andThen (TenantService.abides_findById hop)
  | getTenant id => exact (TenantService.abides_findById hop id).answer _ _
  | updateTenant id update =>
      refine Abides.answer ?_ _ _
      exact (TenantService.abides_updateColumns hop id _).andThen
        (fun _ => TenantService.abides_findById hop id)
  | deleteTenant id => exact (hop _ rfl).answer _ _
  | listUsers | createUser | getUser | updateUser | deleteUser => cases hroute

end Operator

section Users

variable (huser : ∀ st, st.scope = .users tenant.tenant_id → st.addsUser = false →
  Abides J guar (query st))

include huser

theorem UserService.abides_findById (id : ℤ) :
    Abides J guar (UserService.findById tenant id) := by
  refine (huser _ rfl rfl).bind (fun row => ?_)
  cases row <;> exact abides_done _

theorem UserService.abides_updateColumns (id : ℤ) (columns : List UserColumn) :
    Abides J guar (UserService.updateColumns tenant id columns) := by
  induction columns with
  | nil => exact abides_done _
  | cons column columns ih => exact (huser _ rfl rfl).andThen (fun _ => ih)

theorem UserService.abides_delete (id : ℤ) : Abides J guar (UserService.delete tenant id) := by
  refine (huser _ rfl rfl).andThen (fun rows_affected => ?_)
  split_ifs <;> exact abides_done _

theorem abides_handle (hcreate : ∀ create, Abides J guar (UserService.create tenant create))
    {route : Route} (hroute : route.guarded = false) : Abides J guar (handle tenant route) := by
  cases route with
  | health | ready | listTenants | createTenant | getTenant | updateTenant | deleteTenant =>
      cases hroute
  | rejected => exact abides_done _
  | listUsers => exact ((huser _ rfl rfl).andThen (fun _ => abides_done _)).answer _ _
  | createUser create =>
      rw [handle]
      split_ifs
      · exact abides_done _
      · exact (hcreate create).answer _ _
  | getUser id => exact (UserService.abides_findById huser id).answer _ _
  | updateUser id update =>
      refine Abides.answer ?_ _ _
      exact (UserService.abides_findById huser id).andThen (fun _ =>
        (UserService.abides_updateColumns huser id _).andThen
          (fun _ => UserService.abides_findById huser id))
  | deleteUser id => exact (UserService.abides_delete huser id).answer _ _

end Users

theorem UserService.abides_create
    (huser : ∀ st, st.scope = .users tenant.tenant_id → Abides J guar (query st))
    (create : CreateUserReq) : Abides J guar (UserService.create tenant create) := by
  refine (huser _ rfl).andThen (fun count => ?_)
  refine (huser _ rfl).andThen (fun max_users => ?_)
  split_ifs
  · exact abides_done _
  · exact (huser _ rfl).andThen (fun id =>
      UserService.abides_findById (fun st hst _ => huser st hst) id)

/-- What the operator and the users may ask for, a request may. -/
theorem abides_inner {req : Request}
    (hop : req.operates → ∀ st, st.scope = .operator → Abides J guar (query st))
    (hone : Abides J guar (query .one))
    (huser : req.operates = false → ∀ st, st.scope = .users tenant.tenant_id →
      st.addsUser = false → Abides J guar (query st))
    (hcreate : req.operates = false → ∀ create, Abides J guar (UserService.create tenant create)) :
    Abides J guar (inner req tenant) := by
  unfold inner
  split_ifs with hroute
  · unfold adminGuard
    split_ifs with hadmin
    · have hreq : req.operates := by simp [Request.operates, hroute, hadmin]
      exact abides_handle_guarded (hop hreq) hone hroute
    · exact abides_done _
  · have hreq : req.operates = false := by simp [Request.operates, hroute]
    exact abides_handle (huser hreq) (hcreate hreq) (by simpa using hroute)

end Services

section Confined

variable {req : Request} {tenant : TenantContext} {id : ℤ}

theorem Admitted.append {past : Past} (h : Admitted req past id) (e : Sigma Call.Answer) :
    Admitted req (past ++ [e]) id := by
  obtain ⟨slug, tenant, hslug, hid, hmem⟩ := h
  exact ⟨slug, tenant, hslug, hid, List.mem_append_left _ hmem⟩

abbrev Within {α : Type} (req : Request) (id : ℤ) (p : Program α) : Prop :=
  Abides (fun past => Admitted req past id) (fun past e => Confined req past e.1.scope) p

theorem within_query {st : Statement}
    (hst : ∀ past, Admitted req past id → Confined req past st.scope) :
    Within req id (query st) :=
  abides_query (fun _ e h => h.append e) (fun past _ h => hst past h)

theorem within_users (hreq : req.operates = false) {st : Statement} (hst : st.scope = .users id) :
    Within req id (query st) := by
  apply within_query
  intro past h
  rw [hst]
  exact ⟨h, hreq⟩

theorem within_inner : Within req tenant.tenant_id (inner req tenant) := by
  refine abides_inner (fun hreq st hst => within_query (fun _ _ => ?_))
    (within_query (fun _ _ => trivial)) (fun hreq st hst _ => within_users hreq hst)
    (fun hreq => UserService.abides_create (fun st hst => within_users hreq hst))
  rw [hst]
  exact hreq

/-- Every call of a request is confined to the tenant that it was found to come from. -/
theorem serve_confined (req : Request) :
    (serve req).Ensures (fun _ => True) (fun past e => Confined req past e.1.scope)
      (fun _ _ => True) [] := by
  unfold serve
  cases hslug : req.tenant with
  | none => trivial
  | some slug =>
      intro row _
      refine ⟨hslug, ?_⟩
      match row with
      | .error e => trivial
      | .ok none => trivial
      | .ok (some tenant) =>
          intro allowed _
          have hadmitted : Admitted req [⟨.sql (.activeTenant slug), .ok (some tenant)⟩]
              tenant.tenant_id :=
            ⟨slug, tenant, hslug, rfl, List.mem_singleton_self _⟩
          refine ⟨hadmitted, ?_⟩
          cases allowed with
          | true => exact (within_inner _ (hadmitted.append _)).imp (fun _ _ _ => trivial)
          | false => trivial

/-- Only a request of the operator asks for tenants. -/
theorem Confined.scope_ne {past : Past} {scope : Scope} (h : Confined req past scope)
    (hreq : req.operates = false) : scope ≠ .operator := by
  rintro rfl
  rw [Confined, hreq] at h
  cases h

end Confined

def Tables.Named (db : Tables) (slug : String) (id : ℤ) : Prop :=
  ∃ r ∈ db.tenants, r.slug = slug ∧ r.id = id

/-- Slugs and ids are unique, and a user belongs to a tenant. -/
structure Tables.WellFormed (db : Tables) : Prop where
  slugs : ∀ r ∈ db.tenants, ∀ r' ∈ db.tenants, r.slug = r'.slug → r = r'
  ids : ∀ r ∈ db.tenants, ∀ r' ∈ db.tenants, r.id = r'.id → r = r'
  upto : ∀ r ∈ db.tenants, r.id ≤ db.last_tenant
  owned : ∀ u ∈ db.users, ∃ r ∈ db.tenants, r.id = u.tenant_id

inductive Tables.Write (db : Tables) : Statement → Tables → Prop
  | keep {st : Statement} : Write db st db
  | insertTenant {r : TenantRow} (hfree : ∀ r' ∈ db.tenants, r'.slug ≠ r.slug)
      (hid : db.last_tenant < r.id) :
      Write db (.insertTenant r.name r.slug r.status r.plan r.max_users r.max_rpm)
        (db.insertTenant r)
  | updateTenant (column : TenantColumn) (id : ℤ) :
      Write db (.updateTenant column id) (db.updateTenant column id)
  | insertUser {u : UserRow} (hid : db.last_user < u.id) :
      Write db (.insertUser u.tenant_id u.name u.email u.role) (db.insertUser u)
  | updateUser (column : UserColumn) (id tenant_id : ℤ) :
      Write db (.updateUser column id tenant_id) (db.updateUser column id tenant_id)
  | deleteUser (id tenant_id : ℤ) :
      Write db (.deleteUser id tenant_id) (db.deleteUser id tenant_id)

section Tables

variable {db db' : Tables} {st : Statement}

theorem write_of_execute {x : Choice} {result : Except String st.Result}
    (h : db.execute x st = some (result, db')) : db.Write st db' := by
  cases st with
  | insertTenant name slug status plan max_users max_rpm =>
      simp only [Tables.execute] at h
      split_ifs at h with hfree hid
      · cases h
        exact .keep
      · cases h
        refine .insertTenant (r := ⟨x.id, name, slug, status, plan, max_users, max_rpm, x.stamp,
          x.stamp⟩) ?_ (Int.not_le.1 hid)
        simpa using hfree
  | insertUser tenant_id name email role =>
      simp only [Tables.execute] at h
      split_ifs at h with hid htaken
      · cases h
        exact .keep
      · cases h
        exact .insertUser (u := ⟨x.id, tenant_id, name, email, role, x.stamp, x.stamp⟩)
          (Int.not_le.1 hid)
  | updateTenant column id =>
      cases h
      exact .updateTenant column id
  | updateUser column id tenant_id =>
      cases column with
      | email email =>
          simp only [Tables.execute] at h
          split_ifs at h
          · cases h
            exact .keep
          · cases h
            exact .updateUser _ id tenant_id
      | name | role =>
          cases h
          exact .updateUser _ id tenant_id
  | deleteUser id tenant_id =>
      cases h
      exact .deleteUser id tenant_id
  | activeTenant | listTenants | findTenant | countUsers | maxUsers | listUsers | findUser | one =>
      cases h
      exact .keep

/-- The database fails the statement or executes it. -/
theorem run_cases {x : Choice} {result : Except String st.Result}
    (h : db.run x st = some (result, db')) :
    (∃ e, x.failure = some e ∧ result = .error e ∧ db' = db) ∨
      x.failure = none ∧ db.execute x st = some (result, db') := by
  unfold Tables.run at h
  cases hfailure : x.failure with
  | some e =>
      rw [hfailure] at h
      cases h
      exact .inl ⟨e, rfl, rfl, rfl⟩
  | none =>
      rw [hfailure] at h
      exact .inr ⟨rfl, h⟩

theorem write_of_run {x : Choice} {result : Except String st.Result}
    (h : db.run x st = some (result, db')) : db.Write st db' := by
  rcases run_cases h with ⟨e, -, -, rfl⟩ | ⟨-, hexecute⟩
  · exact .keep
  · exact write_of_execute hexecute

/-- A statement that fails has no effect. -/
theorem execute_error {x : Choice} {e : String}
    (h : db.execute x st = some (.error e, db')) : db' = db := by
  cases st with
  | insertTenant name slug status plan max_users max_rpm =>
      simp only [Tables.execute] at h
      split_ifs at h
      · cases h
        rfl
      · cases h
  | insertUser tenant_id name email role =>
      simp only [Tables.execute] at h
      split_ifs at h
      · cases h
        rfl
      · cases h
  | updateUser column id tenant_id =>
      cases column with
      | email email =>
          simp only [Tables.execute] at h
          split_ifs at h
          · cases h
            rfl
          · cases h
      | name | role => cases h
  | findTenant | maxUsers | findUser =>
      exact (Prod.mk.inj (Option.some.inj h)).2.symm
  | activeTenant | listTenants | updateTenant | countUsers | listUsers | deleteUser | one => cases h

theorem run_error {x : Choice} {e : String}
    (h : db.run x st = some (.error e, db')) : db' = db := by
  rcases run_cases h with ⟨e', -, -, rfl⟩ | ⟨-, hexecute⟩
  · rfl
  · exact execute_error hexecute

theorem execute_of_run_ok {x : Choice} {result : st.Result}
    (h : db.run x st = some (.ok result, db')) : db.execute x st = some (.ok result, db') := by
  rcases run_cases h with ⟨e, -, hresult, -⟩ | ⟨-, hexecute⟩
  · cases hresult
  · exact hexecute

theorem set_slug (r : TenantRow) (column : TenantColumn) : (column.set r).slug = r.slug := by
  cases column <;> rfl

theorem set_id (r : TenantRow) (column : TenantColumn) : (column.set r).id = r.id := by
  cases column <;> rfl

theorem set_tenant_id (u : UserRow) (column : UserColumn) :
    (column.set u).tenant_id = u.tenant_id := by
  cases column <;> rfl

/-- An update leaves users with their tenant. -/
theorem tenant_comp_set (p : ℤ → Bool) (column : UserColumn) (id tenant_id : ℤ) :
    ((fun u : UserRow => p u.tenant_id) ∘
      fun u => if u.id = id ∧ u.tenant_id = tenant_id then column.set u else u) =
        fun u => p u.tenant_id := by
  funext u
  simp only [Function.comp_apply]
  split_ifs
  · rw [set_tenant_id]
  · rfl

/-- A row after an update has the slug and the id of a row before it. -/
theorem mem_updateTenant {column : TenantColumn} {id : ℤ} {r : TenantRow}
    (h : r ∈ (db.updateTenant column id).tenants) :
    ∃ r₀ ∈ db.tenants, r = (if r₀.id = id then column.set r₀ else r₀) ∧ r.slug = r₀.slug ∧
      r.id = r₀.id := by
  obtain ⟨r₀, hr₀, rfl⟩ := List.mem_map.1 h
  refine ⟨r₀, hr₀, rfl, ?_⟩
  split_ifs
  · exact ⟨set_slug .., set_id ..⟩
  · exact ⟨rfl, rfl⟩

/-- A row after a statement is that of a tenant with the same id and quotas, or a new one. -/
theorem tenant_of_write (hwrite : db.Write st db') {r : TenantRow} (hr : r ∈ db'.tenants) :
    (∃ r₀ ∈ db.tenants, r.id = r₀.id ∧ r.max_users = r₀.max_users ∧ r.max_rpm = r₀.max_rpm) ∨
      db.last_tenant < r.id ∧ db'.users = db.users := by
  cases hwrite with
  | keep | insertUser | updateUser | deleteUser => exact .inl ⟨r, hr, rfl, rfl, rfl⟩
  | insertTenant hfree hid =>
      rcases List.mem_append.1 hr with hr | hr
      · exact .inl ⟨r, hr, rfl, rfl, rfl⟩
      · rw [List.mem_singleton.1 hr]
        exact .inr ⟨hid, rfl⟩
  | updateTenant column id =>
      obtain ⟨r₀, hr₀, rfl⟩ := List.mem_map.1 hr
      refine .inl ⟨r₀, hr₀, ?_⟩
      split_ifs
      · cases column <;> exact ⟨rfl, rfl, rfl⟩
      · exact ⟨rfl, rfl, rfl⟩

/-- What an update of a row does not change, some row has for good. -/
theorem exists_row_write {p : TenantRow → Prop}
    (hp : ∀ (r : TenantRow) (column : TenantColumn), p r → p (column.set r))
    (h : ∃ r ∈ db.tenants, p r) (hwrite : db.Write st db') : ∃ r ∈ db'.tenants, p r := by
  obtain ⟨r, hr, hrow⟩ := h
  cases hwrite with
  | keep | insertUser | updateUser | deleteUser => exact ⟨r, hr, hrow⟩
  | insertTenant => exact ⟨r, List.mem_append_left _ hr, hrow⟩
  | updateTenant column id =>
      refine ⟨_, List.mem_map_of_mem hr, ?_⟩
      split_ifs
      · exact hp r column hrow
      · exact hrow

theorem Tables.Named.write {slug : String} {id : ℤ} (h : db.Named slug id)
    (hwrite : db.Write st db') : db'.Named slug id := by
  refine exists_row_write (fun r column hrow => ?_) h hwrite
  rwa [set_slug, set_id]

theorem exists_tenant_write {id : ℤ} (h : ∃ r ∈ db.tenants, r.id = id)
    (hwrite : db.Write st db') : ∃ r ∈ db'.tenants, r.id = id := by
  refine exists_row_write (fun r column hrow => ?_) h hwrite
  rwa [set_id]

/-- A statement about users is about those of a tenant. -/
def Tables.Foreign (db : Tables) (st : Statement) : Prop :=
  ∀ id, st.scope = .users id → ∃ r ∈ db.tenants, r.id = id

theorem Tables.WellFormed.write (h : db.WellFormed) (hforeign : db.Foreign st)
    (hwrite : db.Write st db') : db'.WellFormed := by
  have howned (u : UserRow) (hu : u ∈ db.users) := exists_tenant_write (h.owned u hu) hwrite
  cases hwrite with
  | keep => exact h
  | @insertTenant r hfree hid =>
      have hmem (r' : TenantRow) (hr' : r' ∈ (db.insertTenant r).tenants) :
          r' ∈ db.tenants ∨ r' = r := by simpa [Tables.insertTenant] using hr'
      refine ⟨?_, ?_, ?_, howned⟩
      · intro r₁ h₁ r₂ h₂ heq
        rcases hmem r₁ h₁ with hr₁ | rfl <;> rcases hmem r₂ h₂ with hr₂ | rfl
        · exact h.slugs r₁ hr₁ r₂ hr₂ heq
        · exact absurd heq (hfree r₁ hr₁)
        · exact absurd heq.symm (hfree r₂ hr₂)
        · rfl
      · intro r₁ h₁ r₂ h₂ heq
        rcases hmem r₁ h₁ with hr₁ | rfl <;> rcases hmem r₂ h₂ with hr₂ | rfl
        · exact h.ids r₁ hr₁ r₂ hr₂ heq
        · have hle := h.upto r₁ hr₁
          omega
        · have hle := h.upto r₂ hr₂
          omega
        · rfl
      · intro r₁ h₁
        change r₁.id ≤ r.id
        rcases hmem r₁ h₁ with hr₁ | rfl
        · have hle := h.upto r₁ hr₁
          omega
        · exact Int.le_refl _
  | updateTenant column id =>
      refine ⟨?_, ?_, ?_, howned⟩
      · intro r₁ h₁ r₂ h₂ heq
        obtain ⟨r₁', hr₁, rfl, hslug₁, -⟩ := mem_updateTenant h₁
        obtain ⟨r₂', hr₂, rfl, hslug₂, -⟩ := mem_updateTenant h₂
        rw [h.slugs r₁' hr₁ r₂' hr₂ (hslug₁.symm.trans (heq.trans hslug₂))]
      · intro r₁ h₁ r₂ h₂ heq
        obtain ⟨r₁', hr₁, rfl, -, hid₁⟩ := mem_updateTenant h₁
        obtain ⟨r₂', hr₂, rfl, -, hid₂⟩ := mem_updateTenant h₂
        rw [h.ids r₁' hr₁ r₂' hr₂ (hid₁.symm.trans (heq.trans hid₂))]
      · intro r₁ h₁
        obtain ⟨r₁', hr₁, -, -, hid⟩ := mem_updateTenant h₁
        rw [hid]
        exact h.upto r₁' hr₁
  | @insertUser u hid =>
      refine ⟨h.slugs, h.ids, h.upto, fun u' hu' => ?_⟩
      rcases List.mem_append.1 hu' with hu' | hu'
      · exact h.owned u' hu'
      · rw [List.mem_singleton.1 hu']
        exact hforeign u.tenant_id rfl
  | updateUser column id tenant_id =>
      refine ⟨h.slugs, h.ids, h.upto, fun u' hu' => ?_⟩
      obtain ⟨u, hu, rfl⟩ := List.mem_map.1 hu'
      obtain ⟨r, hr, hrow⟩ := h.owned u hu
      refine ⟨r, hr, hrow.trans ?_⟩
      split_ifs
      · exact (set_tenant_id ..).symm
      · rfl
  | deleteUser id tenant_id =>
      exact ⟨h.slugs, h.ids, h.upto, fun u hu => h.owned u (List.mem_of_mem_filter hu)⟩

end Tables

abbrev Task := Platform.Task Call.Answer Request Response

abbrev Service := Platform.State Call.Answer Request Response Server

/-- Every request is at a point of its program, and who was admitted is a tenant. -/
structure Serving (s : Service) : Prop where
  tables : s.shared.tables.WellFormed
  windows : ∀ id, s.shared.windows id ≠ none → ∃ r ∈ s.shared.tables.tenants, r.id = id
  reaches : ∀ i task, s.tasks i = some task → (serve task.request).Reaches task.past task.rest
  admitted : ∀ i task, s.tasks i = some task → ∀ id, Admitted task.request task.past id →
    ∃ slug, task.request.tenant = some slug ∧ s.shared.tables.Named slug id

section Serving

variable {s s' : Service} {stamp : ℤ}

theorem Serving.confined (h : Serving s) {i : ℕ} {task : Task} (ht : s.tasks i = some task)
    {call : Call} {rest : call.Answer → Program Response} (hrest : task.rest = .call call rest)
    (ans : call.Answer) : Confined task.request task.past call.scope := by
  have hensures := (h.reaches i task ht).ensures (serve_confined task.request) (fun _ _ => trivial)
  rw [hrest] at hensures
  exact (hensures ans trivial).1

theorem exists_of_named {db : Tables} {slug : String} {id : ℤ} (h : db.Named slug id) :
    ∃ r ∈ db.tenants, r.id = id := by
  obtain ⟨r, hr, -, hid⟩ := h
  exact ⟨r, hr, hid⟩

theorem named_of_activeTenant {db : Tables} {slug : String} {tenant : TenantContext}
    (h : db.activeTenant slug = some tenant) : db.Named slug tenant.tenant_id := by
  obtain ⟨r, hr, rfl⟩ := Option.map_eq_some_iff.1 h
  have hslug := List.find?_some hr
  simp only [decide_eq_true_eq] at hslug
  exact ⟨r, List.mem_of_find?_eq_some hr, hslug.1, rfl⟩

theorem activeTenant_of_run {db db' : Tables} {x : Choice} {slug : String} {tenant : TenantContext}
    (h : db.run x (.activeTenant slug) = some (.ok (some tenant), db')) :
    db.activeTenant slug = some tenant := by
  have hexecute := execute_of_run_ok h
  simp only [Tables.execute, Option.some.injEq, Prod.mk.injEq, Except.ok.injEq] at hexecute
  exact hexecute.1

/-- The tenant of a log in has a row. -/
theorem named_of_run {db db' : Tables} {x : Choice} {slug : String} {tenant : TenantContext}
    (h : db.run x (.activeTenant slug) = some (.ok (some tenant), db')) :
    db.Named slug tenant.tenant_id := named_of_activeTenant (activeTenant_of_run h)

/-- A row after a call is that of a tenant with the same id and quotas, or a new one. -/
theorem tenant_of_perform {s shared : Server} {x : Choice} {call : Call} {ans : call.Answer}
    (hp : s.perform x call = some (ans, shared)) {r : TenantRow} (hr : r ∈ shared.tables.tenants) :
    (∃ r₀ ∈ s.tables.tenants,
      r.id = r₀.id ∧ r.max_users = r₀.max_users ∧ r.max_rpm = r₀.max_rpm) ∨
      s.tables.last_tenant < r.id ∧ shared.tables.users = s.tables.users := by
  cases call with
  | check =>
      cases hp
      exact .inl ⟨r, hr, rfl, rfl, rfl⟩
  | sql st =>
      obtain ⟨⟨result, db⟩, hrun, hresult⟩ := Option.map_eq_some_iff.1 hp
      cases hresult
      exact tenant_of_write (write_of_run hrun) hr

/-- What the call of a request leaves. -/
theorem Serving.call (h : Serving s) {i : ℕ} {task : Task} (ht : s.tasks i = some task)
    {x : Choice} {call : Call} {rest : call.Answer → Program Response} {ans : call.Answer}
    {shared : Server} (hrest : task.rest = .call call rest)
    (hp : s.shared.perform x call = some (ans, shared)) :
    shared.tables.WellFormed ∧
      (∀ id, shared.windows id ≠ none → ∃ r ∈ shared.tables.tenants, r.id = id) ∧
      (∀ slug id, s.shared.tables.Named slug id → shared.tables.Named slug id) ∧
      ∀ id, Admitted task.request (task.past ++ [⟨call, ans⟩]) id →
        ∃ slug, task.request.tenant = some slug ∧ shared.tables.Named slug id := by
  have hconfined := h.confined ht hrest ans
  cases call with
  | check id quota =>
      obtain ⟨slug, -, hnamed⟩ := h.admitted i task ht id hconfined
      cases hp
      refine ⟨h.tables, fun id' hid' => ?_, fun _ _ hnamed => hnamed, fun id' hadmitted => ?_⟩
      · by_cases heq : id' = id
        · rw [heq]
          exact exists_of_named hnamed
        · refine h.windows id' ?_
          simpa only [checkQuota, Function.update_of_ne heq] using hid'
      · obtain ⟨slug', tenant, hslug, hid, hmem⟩ := hadmitted
        have hold : Admitted task.request task.past id' := by
          refine ⟨slug', tenant, hslug, hid, ?_⟩
          simpa using hmem
        exact h.admitted i task ht id' hold
  | sql st =>
      obtain ⟨⟨result, db⟩, hrun, hr⟩ := Option.map_eq_some_iff.1 hp
      cases hr
      have hwrite := write_of_run hrun
      have hforeign : s.shared.tables.Foreign st := by
        intro id hscope
        have husers : Confined task.request task.past st.scope := hconfined
        rw [hscope] at husers
        obtain ⟨slug, -, hnamed⟩ := h.admitted i task ht id husers.1
        exact exists_of_named hnamed
      refine ⟨h.tables.write hforeign hwrite,
        fun id hid => exists_tenant_write (h.windows id hid) hwrite,
        fun slug id hnamed => hnamed.write hwrite, fun id hadmitted => ?_⟩
      obtain ⟨slug, tenant, hslug, hid, hmem⟩ := hadmitted
      rcases List.mem_append.1 hmem with hmem | hmem
      · obtain ⟨slug', hslug', hnamed⟩ := h.admitted i task ht id ⟨slug, tenant, hslug, hid, hmem⟩
        exact ⟨slug', hslug', hnamed.write hwrite⟩
      · cases List.mem_singleton.1 hmem
        rw [← hid]
        exact ⟨slug, hslug, (named_of_run hrun).write hwrite⟩

theorem Serving.put (h : Serving s) {i : ℕ} {task : Task}
    (hreaches : (serve task.request).Reaches task.past task.rest)
    (hadmitted : ∀ id, Admitted task.request task.past id →
      ∃ slug, task.request.tenant = some slug ∧ s.shared.tables.Named slug id) :
    Serving (s.put i task) where
  tables := h.tables
  windows := h.windows
  reaches := Platform.forall_put h.reaches hreaches
  admitted := Platform.forall_put h.admitted hadmitted

theorem Serving.step {a : Platform.Label Request Choice ℕ} (h : Serving s)
    (hstep : (service stamp).system.step s a = some s') : Serving s' := by
  cases Platform.next_move hstep with
  | spawn ht =>
      refine h.put .start (fun id hadmitted => ?_)
      obtain ⟨slug, tenant, -, -, hmem⟩ := hadmitted
      cases hmem
  | @call i x task call rest ans shared ht hlive hrest hp =>
      obtain ⟨htables, hwindows, hnamed, hadmitted⟩ := h.call ht hrest hp
      have hshared : Serving { s with shared := shared } := by
        refine ⟨htables, hwindows, h.reaches, fun j task' hj id hid => ?_⟩
        obtain ⟨slug, hslug, hname⟩ := h.admitted j task' hj id hid
        exact ⟨slug, hslug, hnamed slug id hname⟩
      have hreaches := hrest ▸ h.reaches i task ht
      exact hshared.put (hreaches.call ans) hadmitted
  | @cut i task ht => exact h.put (h.reaches i task ht) (h.admitted i task ht)
  | env he =>
      cases he
      exact ⟨h.tables, h.windows, h.reaches, h.admitted⟩

theorem serving_init (stamp : ℤ) : Serving (service stamp).system.init where
  tables := by
    constructor <;> simp [Platform.system, service, Server.seeded]
  windows := by
    intro id hid
    exact absurd rfl hid
  reaches := by
    intro i task ht
    cases ht
  admitted := by
    intro i task ht
    cases ht

end Serving

end Rszero.TenantManagement
