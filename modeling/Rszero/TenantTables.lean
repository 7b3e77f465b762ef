import Mathlib.Data.Int.Notation
import Mathlib.Data.List.Basic
import Mathlib.Logic.Function.Basic
import Mathlib.Tactic.Common

/-!
# The database of the tenant service

The two tables that all tenants share, the SQL statements that the services send, and the counters
of the requests of each tenant. A statement may fail with a message of the database; an insert gets
an id above all that its table has ever had, and the time of the database.
-/

namespace Rszero.TenantManagement

inductive TenantStatus
  | active
  | suspended
  | pending
  deriving DecidableEq

def TenantStatus.asStr : TenantStatus → String
  | .active => "active"
  | .suspended => "suspended"
  | .pending => "pending"

def TenantStatus.fromStr (s : String) : Option TenantStatus :=
  [.active, .suspended, .pending].find? (fun status => status.asStr = s)

inductive TenantPlan
  | free
  | pro
  | enterprise
  deriving DecidableEq

def TenantPlan.asStr : TenantPlan → String
  | .free => "free"
  | .pro => "pro"
  | .enterprise => "enterprise"

def TenantPlan.fromStr (s : String) : Option TenantPlan :=
  [.free, .pro, .enterprise].find? (fun plan => plan.asStr = s)

inductive UserRole
  | admin
  | member
  | viewer
  deriving DecidableEq

def UserRole.asStr : UserRole → String
  | .admin => "admin"
  | .member => "member"
  | .viewer => "viewer"

def UserRole.fromStr (s : String) : Option UserRole :=
  [.admin, .member, .viewer].find? (fun role => role.asStr = s)

theorem TenantStatus.fromStr_asStr (status : TenantStatus) :
    fromStr status.asStr = some status := by
  cases status <;> rfl

theorem TenantPlan.fromStr_asStr (plan : TenantPlan) : fromStr plan.asStr = some plan := by
  cases plan <;> rfl

theorem UserRole.fromStr_asStr (role : UserRole) : fromStr role.asStr = some role := by
  cases role <;> rfl

structure TenantQuota where
  max_users : ℤ
  max_requests_per_minute : ℤ
  deriving DecidableEq

def TenantQuota.default : TenantQuota := ⟨10, 100⟩

structure TenantRow where
  id : ℤ
  name : String
  slug : String
  status : String
  plan : String
  max_users : ℤ
  max_rpm : ℤ
  created_at : ℤ
  updated_at : ℤ
  deriving DecidableEq

structure Tenant where
  id : ℤ
  name : String
  slug : String
  status : TenantStatus
  plan : TenantPlan
  quota : TenantQuota
  created_at : ℤ
  updated_at : ℤ
  deriving DecidableEq

def TenantRow.toTenant (r : TenantRow) : Tenant where
  id := r.id
  name := r.name
  slug := r.slug
  status := (TenantStatus.fromStr r.status).getD .pending
  plan := (TenantPlan.fromStr r.plan).getD .free
  quota := ⟨r.max_users, r.max_rpm⟩
  created_at := r.created_at
  updated_at := r.updated_at

structure UserRow where
  id : ℤ
  tenant_id : ℤ
  name : String
  email : String
  role : String
  created_at : ℤ
  updated_at : ℤ
  deriving DecidableEq

structure User where
  id : ℤ
  tenant_id : ℤ
  name : String
  email : String
  role : UserRole
  created_at : ℤ
  updated_at : ℤ
  deriving DecidableEq

def UserRow.toUser (r : UserRow) : User where
  id := r.id
  tenant_id := r.tenant_id
  name := r.name
  email := r.email
  role := (UserRole.fromStr r.role).getD .member
  created_at := r.created_at
  updated_at := r.updated_at

structure TenantContext where
  tenant_id : ℤ
  tenant_slug : String
  plan : String
  quota_rpm : ℤ
  deriving DecidableEq

def TenantRow.context (r : TenantRow) : TenantContext := ⟨r.id, r.slug, r.plan, r.max_rpm⟩

/-- The rows of a table, oldest first, and the ids of the rows inserted last. -/
structure Tables where
  tenants : List TenantRow
  users : List UserRow
  last_tenant : ℤ
  last_user : ℤ

inductive TenantColumn
  | name (s : String)
  | status (s : String)
  | plan (s : String)
  deriving DecidableEq

def TenantColumn.set (r : TenantRow) : TenantColumn → TenantRow
  | .name s => { r with name := s }
  | .status s => { r with status := s }
  | .plan s => { r with plan := s }

inductive UserColumn
  | name (s : String)
  | email (s : String)
  | role (s : String)
  deriving DecidableEq

def UserColumn.set (r : UserRow) : UserColumn → UserRow
  | .name s => { r with name := s }
  | .email s => { r with email := s }
  | .role s => { r with role := s }

inductive Statement
  | activeTenant (slug : String)
  | insertTenant (name slug status plan : String) (max_users max_rpm : ℤ)
  | listTenants
  | findTenant (id : ℤ)
  | updateTenant (column : TenantColumn) (id : ℤ)
  | countUsers (tenant_id : ℤ)
  | maxUsers (tenant_id : ℤ)
  | insertUser (tenant_id : ℤ) (name email role : String)
  | listUsers (tenant_id : ℤ)
  | findUser (id tenant_id : ℤ)
  | updateUser (column : UserColumn) (id tenant_id : ℤ)
  | deleteUser (id tenant_id : ℤ)
  | one

/-- What a statement returns: a row or rows, a number, or how many rows it affected. -/
abbrev Statement.Result : Statement → Type
  | .activeTenant _ => Option TenantContext
  | .listTenants => List TenantRow
  | .findTenant _ => TenantRow
  | .listUsers _ => List UserRow
  | .findUser .. => UserRow
  | .insertTenant .. | .countUsers _ | .maxUsers _ | .insertUser .. => ℤ
  | .deleteUser .. => ℕ
  | .updateTenant .. | .updateUser .. | .one => Unit

/-- What is left open: whether and how the database fails, the id and the time of a new row. -/
structure Choice where
  failure : Option String
  conflict : String
  id : ℤ
  stamp : ℤ

def rowNotFound : String :=
  "no rows returned by a query that expected to return at least one row"

namespace Tables

variable (db : Tables)

def activeTenant (slug : String) : Option TenantContext :=
  (db.tenants.find? (fun r => r.slug = slug ∧ r.status = "active")).map TenantRow.context

def findTenant (id : ℤ) : Option TenantRow := db.tenants.find? (fun r => r.id = id)

def updateTenant (column : TenantColumn) (id : ℤ) : Tables :=
  { db with tenants := db.tenants.map (fun r => if r.id = id then column.set r else r) }

def usersOf (tenant_id : ℤ) : List UserRow := db.users.filter (fun r => r.tenant_id = tenant_id)

def findUser (id tenant_id : ℤ) : Option UserRow :=
  (db.usersOf tenant_id).find? (fun r => r.id = id)

def updateUser (column : UserColumn) (id tenant_id : ℤ) : Tables :=
  { db with users := db.users.map (fun r =>
      if r.id = id ∧ r.tenant_id = tenant_id then column.set r else r) }

def deleteUser (id tenant_id : ℤ) : Tables :=
  { db with users := db.users.filter (fun r => ¬ (r.id = id ∧ r.tenant_id = tenant_id)) }

/-- The index `idx_users_email_per_tenant` has the email for another row of the tenant. -/
def Taken (email : String) (id tenant_id : ℤ) : Prop :=
  ∃ r ∈ db.usersOf tenant_id, r.email = email ∧ r.id ≠ id

instance (email : String) (id tenant_id : ℤ) : Decidable (db.Taken email id tenant_id) :=
  inferInstanceAs (Decidable (∃ r ∈ _, _))

def insertTenant (r : TenantRow) : Tables :=
  { db with tenants := db.tenants ++ [r], last_tenant := r.id }

def insertUser (r : UserRow) : Tables := { db with users := db.users ++ [r], last_user := r.id }

def execute (x : Choice) : (st : Statement) → Option (Except String st.Result × Tables)
  | .activeTenant slug => some (.ok (db.activeTenant slug), db)
  | .insertTenant name slug status plan max_users max_rpm =>
      if ∃ r ∈ db.tenants, r.slug = slug then some (.error x.conflict, db)
      else if x.id ≤ db.last_tenant then none
      else some (.ok x.id, db.insertTenant
        ⟨x.id, name, slug, status, plan, max_users, max_rpm, x.stamp, x.stamp⟩)
  | .listTenants => some (.ok db.tenants, db)
  | .findTenant id => some ((db.findTenant id).elim (.error rowNotFound) .ok, db)
  | .updateTenant column id => some (.ok (), db.updateTenant column id)
  | .countUsers tenant_id => some (.ok (db.usersOf tenant_id).length, db)
  | .maxUsers tenant_id =>
      some (((db.findTenant tenant_id).map TenantRow.max_users).elim (.error rowNotFound) .ok, db)
  | .insertUser tenant_id name email role =>
      if x.id ≤ db.last_user then none
      else if db.Taken email x.id tenant_id then some (.error x.conflict, db)
      else some (.ok x.id, db.insertUser ⟨x.id, tenant_id, name, email, role, x.stamp, x.stamp⟩)
  | .listUsers tenant_id => some (.ok (db.usersOf tenant_id), db)
  | .findUser id tenant_id => some ((db.findUser id tenant_id).elim (.error rowNotFound) .ok, db)
  | .updateUser (.email email) id tenant_id =>
      if (db.findUser id tenant_id).isSome ∧ db.Taken email id tenant_id then
        some (.error x.conflict, db)
      else some (.ok (), db.updateUser (.email email) id tenant_id)
  | .updateUser column id tenant_id => some (.ok (), db.updateUser column id tenant_id)
  | .deleteUser id tenant_id =>
      some (.ok ((db.findUser id tenant_id).toList.length), db.deleteUser id tenant_id)
  | .one => some (.ok (), db)

def run (x : Choice) (st : Statement) : Option (Except String st.Result × Tables) :=
  match x.failure with
  | some e => some (.error e, db)
  | none => db.execute x st

end Tables

structure RateWindow where
  count : ℕ
  reset_at : ℕ
  deriving DecidableEq

abbrev Windows := ℤ → Option RateWindow

def RateWindow.fresh (now : ℕ) : RateWindow := ⟨0, now + 60000000000⟩

/-- `quota as u32` -/
def asU32 (quota : ℤ) : ℕ := (UInt32.ofInt quota).toNat

def RateWindow.current (window : Option RateWindow) (now : ℕ) : RateWindow :=
  let window := window.getD (.fresh now)
  if now > window.reset_at then .fresh now else window

/-- `TenantRateLimiter::check`, with the window that it leaves. -/
def RateWindow.check (window : Option RateWindow) (now : ℕ) (quota : ℤ) : Bool × RateWindow :=
  let window := RateWindow.current window now
  if window.count ≥ asU32 quota then (false, window)
  else (true, { window with count := window.count + 1 })

def checkQuota (windows : Windows) (now : ℕ) (tenant_id quota : ℤ) : Bool × Windows :=
  let checked := RateWindow.check (windows tenant_id) now quota
  (checked.1, Function.update windows tenant_id (some checked.2))

end Rszero.TenantManagement
