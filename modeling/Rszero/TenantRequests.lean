import Mathlib.Data.List.Infix
import Rszero.ConcurrentPrograms
import Rszero.TenantTables

/-!
# The requests of the tenant service

Each request is a program that calls the database and the rate limiter. `admin_guard_middleware` is
a layer of the routes of the operator and of `/health` and `/ready`; `tenant_validation_middleware`
is a layer of all routes, those included. An error of a service is its message.
-/

namespace Rszero.TenantManagement

open CallProgram

inductive Call
  | check (tenant_id quota : ℤ)
  | sql (st : Statement)

abbrev Call.Answer : Call → Type
  | .check .. => Bool
  | .sql st => Except String st.Result

abbrev Program (α : Type) := CallProgram Call.Answer α

abbrev Fallible (α : Type) := Program (Except String α)

section Programs

variable {α β : Type}

/-- `?` -/
def Fallible.andThen (p : Fallible α) (f : α → Fallible β) : Fallible β :=
  p.bind (fun result =>
    match result with
    | .ok a => f a
    | .error e => .done (.error e))

def ok (a : α) : Fallible α := .done (.ok a)

def bail (message : String) : Fallible α := .done (.error message)

def query (st : Statement) : Fallible st.Result := .call (.sql st) .done

end Programs

structure CreateTenantReq where
  name : String
  slug : String
  plan : TenantPlan

structure UpdateTenantReq where
  name : Option String
  status : Option TenantStatus
  plan : Option TenantPlan

def UpdateTenantReq.columns (req : UpdateTenantReq) : List TenantColumn :=
  (req.name.map .name).toList ++ (req.status.map (fun s => .status s.asStr)).toList ++
    (req.plan.map (fun p => .plan p.asStr)).toList

structure CreateUserReq where
  name : String
  email : String
  role : UserRole

structure UpdateUserReq where
  name : Option String
  email : Option String
  role : Option UserRole

def UpdateUserReq.columns (req : UpdateUserReq) : List UserColumn :=
  (req.name.map .name).toList ++ (req.email.map .email).toList ++
    (req.role.map (fun r => .role r.asStr)).toList

namespace TenantService

def findById (id : ℤ) : Fallible Tenant :=
  (query (.findTenant id)).andThen (fun row => ok row.toTenant)

def create (req : CreateTenantReq) : Fallible Tenant :=
  (query (.insertTenant req.name req.slug TenantStatus.active.asStr req.plan.asStr
    TenantQuota.default.max_users TenantQuota.default.max_requests_per_minute)).andThen findById

def list : Fallible (List Tenant) :=
  (query .listTenants).andThen (fun rows => ok (rows.map TenantRow.toTenant))

def updateColumns (id : ℤ) : List TenantColumn → Fallible Unit
  | [] => ok ()
  | column :: columns =>
      (query (.updateTenant column id)).andThen (fun _ => updateColumns id columns)

def update (id : ℤ) (req : UpdateTenantReq) : Fallible Tenant :=
  (updateColumns id req.columns).andThen (fun _ => findById id)

def delete (id : ℤ) : Fallible Unit := query (.updateTenant (.status "suspended") id)

end TenantService

namespace UserService

variable (tenant : TenantContext)

def findById (id : ℤ) : Fallible User :=
  (query (.findUser id tenant.tenant_id)).bind (fun row =>
    match row with
    | .ok row => ok row.toUser
    | .error _ => bail "user not found")

def quotaExceeded (count max_users : ℤ) : String :=
  s!"tenant user quota exceeded: {count} of {max_users}"

def create (req : CreateUserReq) : Fallible User :=
  (query (.countUsers tenant.tenant_id)).andThen (fun count =>
    (query (.maxUsers tenant.tenant_id)).andThen (fun max_users =>
      if count ≥ max_users then bail (quotaExceeded count max_users)
      else
        (query (.insertUser tenant.tenant_id req.name req.email req.role.asStr)).andThen
          (fun id => findById tenant id)))

def list : Fallible (List User) :=
  (query (.listUsers tenant.tenant_id)).andThen (fun rows => ok (rows.map UserRow.toUser))

def updateColumns (id : ℤ) : List UserColumn → Fallible Unit
  | [] => ok ()
  | column :: columns =>
      (query (.updateUser column id tenant.tenant_id)).andThen (fun _ => updateColumns id columns)

/-- The row is looked for before it is updated. -/
def update (id : ℤ) (req : UpdateUserReq) : Fallible User :=
  (findById tenant id).andThen (fun _ =>
    (updateColumns tenant id req.columns).andThen (fun _ => findById tenant id))

def delete (id : ℤ) : Fallible Unit :=
  (query (.deleteUser id tenant.tenant_id)).andThen (fun rows_affected =>
    if rows_affected = 0 then bail "user not found" else ok ())

end UserService

inductive Data
  | none
  /-- The message alone is the body. -/
  | plain
  | tenant (tenant : Tenant)
  | tenants (tenants : List Tenant)
  | user (user : User)
  | users (users : List User)
  deriving DecidableEq

/-- The status of the response, and the fields of its `ApiResponse`. -/
structure Response where
  status : ℕ
  code : ℤ
  message : String
  data : Data
  deriving DecidableEq

def Response.ok (data : Data) : Response := ⟨200, 0, "success", data⟩

def Response.err (code : ℤ) (message : String) : Response := ⟨200, code, message, .none⟩

/-- What axum answers for a handler that it does not call. -/
def Response.rejected (status : ℕ) (text : String) : Response := ⟨status, 0, text, .plain⟩

/-- `match svc.call().await`, with what the handler makes of the error. -/
def answer {α : Type} (p : Fallible α) (data : α → Data) (failed : String → Response) :
    Program Response :=
  p.bind (fun result =>
    match result with
    | .ok a => .done (.ok (data a))
    | .error e => .done (failed e))

def notFound (what : String) (_ : String) : Response := .err 404 (what ++ " not found")

/-- `msg.contains("quota")` -/
def mentionsQuota (msg : String) : Bool := "quota".toList <:+: msg.toList

def userNotCreated (msg : String) : Response :=
  if mentionsQuota msg then .err 429 msg else .err 500 ("failed to create user: " ++ msg)

/-- Where a request leads to: a handler, or a rejection where there is none for the path and the
method, or where the id or the body cannot be read. -/
inductive Route
  | rejected (guarded : Bool) (status : ℕ) (text : String)
  | health
  | ready
  | listTenants
  | createTenant (req : CreateTenantReq)
  | getTenant (id : ℤ)
  | updateTenant (id : ℤ) (req : UpdateTenantReq)
  | deleteTenant (id : ℤ)
  | listUsers
  | createUser (req : CreateUserReq)
  | getUser (id : ℤ)
  | updateUser (id : ℤ) (req : UpdateUserReq)
  | deleteUser (id : ℤ)

/-- What was added before the layer of `admin_guard_middleware`. -/
def Route.guarded : Route → Bool
  | .health | .ready | .listTenants | .createTenant _ | .getTenant _ | .updateTenant ..
  | .deleteTenant _ => true
  | .rejected guarded _ _ => guarded
  | _ => false

def handle (tenant : TenantContext) : Route → Program Response
  | .rejected _ status text => .done (.rejected status text)
  | .health => .done (.ok .none)
  | .ready => answer (query .one) (fun _ => .none) (fun e => .err 503 ("not ready: " ++ e))
  | .listTenants =>
      answer TenantService.list .tenants (fun e => .err 500 ("database error: " ++ e))
  | .createTenant req =>
      if req.name = "" ∨ req.slug = "" then .done (.err 400 "name and slug are required")
      else answer (TenantService.create req) .tenant
        (fun e => .err 500 ("failed to create tenant: " ++ e))
  | .getTenant id => answer (TenantService.findById id) .tenant (notFound "tenant")
  | .updateTenant id req => answer (TenantService.update id req) .tenant (notFound "tenant")
  | .deleteTenant id =>
      answer (TenantService.delete id) (fun _ => .none)
        (fun e => .err 500 ("failed to delete tenant: " ++ e))
  | .listUsers =>
      answer (UserService.list tenant) .users (fun e => .err 500 ("database error: " ++ e))
  | .createUser req =>
      if req.name = "" ∨ req.email = "" then .done (.err 400 "name and email are required")
      else answer (UserService.create tenant req) .user userNotCreated
  | .getUser id => answer (UserService.findById tenant id) .user (notFound "user")
  | .updateUser id req => answer (UserService.update tenant id req) .user (notFound "user")
  | .deleteUser id => answer (UserService.delete tenant id) (fun _ => .none) (notFound "user")

/-- The headers `X-Tenant-ID` and `X-Admin-Token`, when they are text, and the route. -/
structure Request where
  tenant : Option String
  token : Option String
  route : Route

def Response.refused (status : ℕ) (message : String) : Response := ⟨status, status, message, .none⟩

def Request.isAdmin (req : Request) : Bool := req.token = some "supersecrettoken"

def adminGuard (req : Request) (next : Program Response) : Program Response :=
  if req.isAdmin then next else .done (.refused 401 "admin access required")

/-- The handler of the route behind the layers that come before it. -/
def inner (req : Request) (tenant : TenantContext) : Program Response :=
  if req.route.guarded then adminGuard req (handle tenant req.route) else handle tenant req.route

/-- A request, as `tenant_validation_middleware` serves it. -/
def serve (req : Request) : Program Response :=
  match req.tenant with
  | none => .done (.refused 400 "missing X-Tenant-ID header")
  | some slug =>
      .call (.sql (.activeTenant slug)) (fun row =>
        match row with
        | .ok (some tenant) =>
            .call (.check tenant.tenant_id tenant.quota_rpm) (fun allowed =>
              if allowed then inner req tenant
              else .done (.refused 429 "tenant rate limit exceeded"))
        | _ => .done (.refused 403 "tenant not found or inactive"))

structure Server where
  tables : Tables
  windows : Windows
  now : ℕ

def Server.perform (s : Server) (x : Choice) :
    (call : Call) → Option (call.Answer × Server)
  | .check tenant_id quota =>
      some ((checkQuota s.windows s.now tenant_id quota).1,
        { s with windows := (checkQuota s.windows s.now tenant_id quota).2 })
  | .sql st => (s.tables.run x st).map (fun r => (r.1, { s with tables := r.2 }))

def Server.elapse (s : Server) (d : ℕ) : Server := { s with now := s.now + d }

/-- After `init_db`. -/
def Server.seeded (stamp : ℤ) : Server where
  tables := {
    tenants := [⟨1, "Acme Corporation", "acme", "active", "enterprise", 10, 100, stamp, stamp⟩]
    users := [⟨1, 1, "Alice Admin", "alice@acme.com", "admin", stamp, stamp⟩]
    last_tenant := 1
    last_user := 1 }
  windows := fun _ => none
  now := 0

def service (stamp : ℤ) : Platform Call.Answer Request Response Server Choice ℕ where
  shared := .seeded stamp
  body := serve
  perform := Server.perform
  env s d := some (s.elapse d)

end Rszero.TenantManagement
