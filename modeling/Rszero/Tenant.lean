import Mathlib.Data.List.Forall2
import Rszero.Http
import Rszero.Pieces

/-!
# Tenants

`extract_tenant`, which takes the tenant of a request from a header or from the path. In the path it
looks for the parameter itself, which stands in the pattern of a route but not in the paths of its
requests.
-/

namespace Rszero.Tenant

open Http

structure TenantConfig where
  header_name : Option String
  path_param : Option String
  default_tenant : Option String

namespace TenantConfig

def header (name : String) : TenantConfig where
  header_name := some name
  path_param := none
  default_tenant := none

def pathParam (name : String) : TenantConfig where
  header_name := none
  path_param := some name
  default_tenant := none

def withDefault (config : TenantConfig) (tenant : String) : TenantConfig :=
  { config with default_tenant := some tenant }

end TenantConfig

/-- `path.split('/')` -/
def segments (path : String) : List (List Char) := path.toList.splitOn '/'

def paramSegment (param : String) : List Char := ':' :: param.toList

/-- The segment after the first that is the parameter. -/
def afterParam (param : String) (parts : List (List Char)) : Option (List Char) :=
  (parts.findIdx? (fun p => p == paramSegment param)).bind (fun pos => parts[pos + 1]?)

variable {Body : Type}

def extractTenant (req : Request Body) (config : TenantConfig) : Option String :=
  match config.header_name.bind req.headers.text with
  | some s => some s
  | none =>
      match config.path_param.bind (fun param => afterParam param (segments req.uri.path)) with
      | some part => some (String.ofList part)
      | none => config.default_tenant

def tenantId (req : Request Body) (config : TenantConfig) : String :=
  (extractTenant req config).getD "default"

/-- A segment of a path stands for one of a pattern. -/
def FillsSegment (part segment : List Char) : Prop :=
  if part.head? = some ':' then segment ≠ [] ∧ '/' ∉ segment else segment = part

instance : DecidableRel FillsSegment :=
  fun part segment => inferInstanceAs
    (Decidable (if part.head? = some ':' then segment ≠ [] ∧ '/' ∉ segment else segment = part))

/-- A path that a pattern with the parameter makes when its parameters are replaced. -/
structure Instance (param path : String) where
  pattern : String
  once : (segments pattern).count (paramSegment param) = 1
  fills : List.Forall₂ FillsSegment (segments pattern) (segments path)

namespace Instance

variable {param path : String}

theorem position_lt (route : Instance param path) :
    (segments route.pattern).idxOf (paramSegment param) < (segments path).length := by
  have hcount : 0 < (segments route.pattern).count (paramSegment param) := by
    rw [route.once]
    exact Nat.one_pos
  exact route.fills.length_eq ▸ List.idxOf_lt_length_of_mem (List.count_pos_iff.1 hcount)

/-- The segment in the place of the parameter. -/
def tenant (route : Instance param path) : String :=
  String.ofList ((segments path).get ⟨_, route.position_lt⟩)

end Instance

/-- The tenant follows the parameter in the path, or is the default when nothing follows it. -/
def Announced (param : String) (default_tenant : Option String) (path tenant : String) : Prop :=
  (∃ before after, segments path = before ++ paramSegment param :: tenant.toList :: after ∧
      paramSegment param ∉ before) ∨
    paramSegment param ∉ (segments path).dropLast ∧ default_tenant = some tenant

section AfterParam

variable {param : String} {parts before after : List (List Char)} {part : List Char}

theorem findIdx?_of_not_mem (h : paramSegment param ∉ parts) :
    parts.findIdx? (fun p => p == paramSegment param) = none := by
  rw [List.findIdx?_eq_none_iff]
  exact fun p hp => beq_false_of_ne (fun heq => h (heq ▸ hp))

theorem afterParam_append (h : paramSegment param ∉ before) :
    afterParam param (before ++ paramSegment param :: after) = after.head? := by
  have hsome : (before ++ paramSegment param :: after).findIdx? (fun p => p == paramSegment param) =
      some before.length := by
    simp [List.findIdx?_append, findIdx?_of_not_mem h, List.findIdx?_cons]
  rw [afterParam, hsome, Option.bind_some, List.getElem?_append_right (Nat.le_succ _),
    Nat.succ_sub le_rfl, Nat.sub_self, List.getElem?_cons_succ, List.head?_eq_getElem?]

theorem afterParam_of_not_mem (h : paramSegment param ∉ parts) : afterParam param parts = none := by
  rw [afterParam, findIdx?_of_not_mem h]
  rfl

theorem afterParam_eq_some_iff : afterParam param parts = some part ↔
    ∃ before after, parts = before ++ paramSegment param :: part :: after ∧
      paramSegment param ∉ before := by
  constructor
  · intro h
    by_cases hmem : paramSegment param ∈ parts
    · obtain ⟨before, after, rfl, hbefore⟩ := List.eq_append_cons_of_mem hmem
      rw [afterParam_append hbefore] at h
      obtain ⟨after, rfl⟩ := List.head?_eq_some_iff.1 h
      exact ⟨before, after, rfl, hbefore⟩
    · rw [afterParam_of_not_mem hmem] at h
      exact absurd h.symm (Option.some_ne_none part)
  · rintro ⟨before, after, rfl, hbefore⟩
    exact afterParam_append hbefore

/-- Nothing follows the parameter when it is at most the last segment. -/
theorem afterParam_eq_none_iff :
    afterParam param parts = none ↔ paramSegment param ∉ parts.dropLast := by
  by_cases hmem : paramSegment param ∈ parts
  · obtain ⟨before, after, rfl, hbefore⟩ := List.eq_append_cons_of_mem hmem
    rw [afterParam_append hbefore, List.head?_eq_none_iff,
      List.dropLast_append_of_ne_nil (List.cons_ne_nil _ _)]
    cases after with
    | nil => exact iff_of_true rfl (by simpa using hbefore)
    | cons part after => exact iff_of_false (List.cons_ne_nil _ _) (by simp)
  · exact iff_of_true (afterParam_of_not_mem hmem) (fun h => hmem (List.dropLast_subset _ h))

end AfterParam

section Extraction

variable {param : String} {default_tenant : Option String} {req req' : Request Body}
  {tenant : String}

def pathConfig (param : String) (default_tenant : Option String) : TenantConfig :=
  { TenantConfig.pathParam param with default_tenant := default_tenant }

theorem extractTenant_of_afterParam {part : List Char}
    (h : afterParam param (segments req.uri.path) = some part) :
    extractTenant req (pathConfig param default_tenant) = some (String.ofList part) := by
  simp [extractTenant, pathConfig, TenantConfig.pathParam, h]

theorem extractTenant_of_not_afterParam (h : afterParam param (segments req.uri.path) = none) :
    extractTenant req (pathConfig param default_tenant) = default_tenant := by
  simp [extractTenant, pathConfig, TenantConfig.pathParam, h]

theorem extractTenant_iff : extractTenant req (pathConfig param default_tenant) = some tenant ↔
    Announced param default_tenant req.uri.path tenant := by
  rw [Announced, ← afterParam_eq_some_iff, ← afterParam_eq_none_iff]
  cases hafter : afterParam param (segments req.uri.path) with
  | none => simp [extractTenant_of_not_afterParam hafter]
  | some part =>
      rw [extractTenant_of_afterParam hafter, Option.some.injEq, Option.some.injEq,
        or_iff_left (fun h => Option.some_ne_none part h.1)]
      constructor
      · rintro rfl
        exact String.toList_ofList.symm
      · rintro rfl
        exact String.ofList_toList

/-- All requests whose paths do not have the parameter share one id. -/
theorem tenantId_of_not_mem (h : paramSegment param ∉ segments req.uri.path) :
    tenantId req (pathConfig param default_tenant) = default_tenant.getD "default" := by
  rw [tenantId, extractTenant_of_not_afterParam (afterParam_of_not_mem h)]

/-- A request gets the tenant of its path exactly when that path has the parameter before it, or the
tenant is the default; then different tenants have different ids. -/
theorem extractTenant_exact_iff (param : String) (default_tenant : Option String) :
    (∀ (req : Request Body) (route : Instance param req.uri.path),
      extractTenant req (pathConfig param default_tenant) = some route.tenant ↔
        Announced param default_tenant req.uri.path route.tenant) ∧
      ∀ (req req' : Request Body) (route : Instance param req.uri.path)
        (route' : Instance param req'.uri.path),
        Announced param default_tenant req.uri.path route.tenant →
        Announced param default_tenant req'.uri.path route'.tenant →
        route.tenant ≠ route'.tenant →
        tenantId req (pathConfig param default_tenant) ≠
          tenantId req' (pathConfig param default_tenant) := by
  refine ⟨fun req route => extractTenant_iff, fun req req' route route' h h' hne => ?_⟩
  rw [tenantId, tenantId, extractTenant_iff.2 h, extractTenant_iff.2 h']
  exact hne

end Extraction

def getPath (path : String) : Request Unit := ⟨.get, ⟨none, none, path, none⟩, [], ()⟩

def instanceOf (pattern path : String) (once : (segments pattern).count (paramSegment "id") = 1)
    (length : (segments pattern).length = (segments path).length)
    (fills : ∀ p ∈ (segments pattern).zip (segments path), FillsSegment p.1 p.2) :
    Instance "id" path where
  pattern := pattern
  once := once
  fills := List.forall₂_iff_zip.2 ⟨length, fun h => fills _ h⟩

def acmeOrders : Instance "id" "/tenants/acme/orders" :=
  instanceOf "/tenants/:id/orders" _ (by decide) (by decide) (by decide)

def globexOrders : Instance "id" "/tenants/globex/orders" :=
  instanceOf "/tenants/:id/orders" _ (by decide) (by decide) (by decide)

/-- One tenant is the default, and the other has the parameter for its realm. -/
theorem extractTenant_exact_iff_realm :
    tenantId (getPath "/acme/acme") (pathConfig "id" (some "acme")) ≠
      tenantId (getPath "/:id/globex") (pathConfig "id" (some "acme")) :=
  (extractTenant_exact_iff "id" (some "acme")).2 (getPath "/acme/acme") (getPath "/:id/globex")
    (instanceOf "/:realm/:id" _ (by decide) (by decide) (by decide))
    (instanceOf "/:realm/:id" _ (by decide) (by decide) (by decide))
    (.inr ⟨by decide, by decide⟩)
    (.inl ⟨["".toList], [], by decide, by decide⟩) (by decide)

/-- Two tenants on one route get one id. -/
theorem not_extractTenant_exact :
    extractTenant (getPath "/tenants/acme/orders") (pathConfig "id" none) ≠
        some acmeOrders.tenant ∧
      acmeOrders.tenant ≠ globexOrders.tenant ∧
      tenantId (getPath "/tenants/acme/orders") (pathConfig "id" none) =
        tenantId (getPath "/tenants/globex/orders") (pathConfig "id" none) :=
  ⟨by decide, by decide, (tenantId_of_not_mem (by decide)).trans
    (tenantId_of_not_mem (by decide)).symm⟩

end Rszero.Tenant
